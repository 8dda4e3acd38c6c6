import ChatForms.Proofs.Registry

namespace ChatForms

namespace Format

/-- The format leaves parsing undefined, whatever it says about it. -/
def KeepsParse (f : Format) : Prop := f.parse = fun _ _ => .error (.notSupported f.name .parsing)

/-- Formats of the library, and those without a parser of their own. -/
def IsUsual (f : Format) : Prop := f ∈ standard ∨ f.KeepsParse

def OverridesSerialize (f : Format) : Prop :=
  f.serialize ≠ fun _ => .error (.notSupported f.name .serialization)

/-- The format could write documents but does not say so. -/
def IsWithheld (f : Format) : Prop := f.OverridesSerialize ∧ f.serializes = false

variable {f : Format}

theorem IsUsual.parse_eq (h : f.IsUsual) (hparses : f.parses = false) (rules : Containment)
    (source : String) : f.parse rules source = .error (.notSupported f.name .parsing) := by
  rcases h with hmem | hkeeps
  · simp only [standard, List.mem_cons, List.not_mem_nil, or_false] at hmem
    rcases hmem with rfl | rfl | rfl | rfl
    · cases hparses
    · cases hparses
    · rfl
    · rfl
  · rw [hkeeps]

theorem serialize_eq_of_not_isWithheld (h : ¬f.IsWithheld) (hserializes : f.serializes = false)
    (d : Document) : f.serialize d = .error (.notSupported f.name .serialization) := by
  have hkeeps : f.serialize = fun _ => .error (.notSupported f.name .serialization) :=
    Classical.byContradiction fun hoverrides => h ⟨hoverrides, hserializes⟩
  rw [hkeeps]

end Format

namespace Registry

/-- What registering usual formats one after the other leads to, without formats or with the
standard ones to begin with. -/
inductive Reached : Registry → Prop where
  | empty : Reached .empty
  | standard : Reached .standard
  | register {r : Registry} {f : Format} (h : Reached r) (hf : f.IsUsual) : Reached (r.register f)

/-- Every format is usual and stands under its own name. -/
def IsTidy (r : Registry) : Prop :=
  ∀ name f, r.formats.get? name = some f → f.name = name ∧ f.IsUsual

variable {r : Registry} {f : Format} {name : String}

theorem isTidy_empty : Registry.empty.IsTidy := by
  intro name f h
  cases h

theorem IsTidy.register (h : r.IsTidy) (hf : f.IsUsual) : (r.register f).IsTidy := by
  intro name g hg
  rw [Registry.register, StringMap.get?_insert] at hg
  split at hg
  · next hname =>
    cases hg
    exact ⟨hname.symm, hf⟩
  · exact h name g hg

theorem IsTidy.foldl (h : r.IsTidy) {fs : List Format} (hfs : ∀ f ∈ fs, f.IsUsual) :
    (fs.foldl Registry.register r).IsTidy := by
  induction fs generalizing r with
  | nil => exact h
  | cons f fs ih =>
    obtain ⟨hf, hfs⟩ := List.forall_mem_cons.mp hfs
    exact ih (h.register hf) hfs

theorem Reached.isTidy (h : Reached r) : r.IsTidy := by
  induction h with
  | empty => exact isTidy_empty
  | standard => exact isTidy_empty.foldl fun f hf => .inl hf
  | register _ hf ih => exact ih.register hf

/-- What a registry answers when it is asked to read or to write, compared with what the format of
that name answers. -/
structure Defers (r : Registry) : Prop where
  parse : ∀ rules source name, r.parse rules source name =
    r.get name >>= fun f => f.parse rules source
  serialize : ∀ d name, (∀ f, r.get name = .ok f → ¬f.IsWithheld) →
    r.serialize d name = r.get name >>= fun f => f.serialize d
  withheld : ∀ d name f, r.get name = .ok f → f.IsWithheld →
    r.serialize d name = .error (.notSupported name .serialization)
  serialize_iff : ∀ name f, r.get name = .ok f →
    ((∀ d, r.serialize d name = f.serialize d) ↔ ¬f.IsWithheld)

theorem parse_of_get (h : r.get name = .ok f) (rules : Containment) (source : String) :
    r.parse rules source name =
      if f.parses then f.parse rules source else .error (.notSupported name .parsing) := by
  rw [parse, h]
  rfl

theorem serialize_of_get (h : r.get name = .ok f) (d : Document) :
    r.serialize d name =
      if f.serializes then f.serialize d else .error (.notSupported name .serialization) := by
  rw [serialize, h]
  rfl

/-- A format is only asked for what it says it can do, and what it would refuse itself is refused in
the same words. -/
theorem defers_of_reached (h : Reached r) : r.Defers := by
  have hnamed : ∀ name f, r.get name = .ok f → f.name = name ∧ f.IsUsual :=
    fun name f hf => h.isTidy name f (get_eq_ok_iff.mp hf)
  have hwithheld : ∀ d name f, r.get name = .ok f → f.IsWithheld →
      r.serialize d name = .error (.notSupported name .serialization) := by
    intro d name f hf hwithheld
    rw [serialize_of_get hf, hwithheld.2]
    rfl
  have hopen : ∀ d name f, r.get name = .ok f → ¬f.IsWithheld →
      r.serialize d name = f.serialize d := by
    intro d name f hf hopen
    rw [serialize_of_get hf]
    split
    · rfl
    · next hserializes =>
      rw [f.serialize_eq_of_not_isWithheld hopen (Bool.eq_false_iff.mpr hserializes),
        (hnamed name f hf).1]
  constructor
  case parse =>
    intro rules source name
    cases hget : r.get name with
    | error fault =>
      rw [parse, hget]
      rfl
    | ok f =>
      obtain ⟨hname, husual⟩ := hnamed name f hget
      rw [parse_of_get hget]
      split
      · rfl
      · next hparses =>
        rw [← hname]
        exact (husual.parse_eq (Bool.eq_false_iff.mpr hparses) rules source).symm
  case serialize =>
    intro d name hall
    cases hget : r.get name with
    | error fault =>
      rw [serialize, hget]
      rfl
    | ok f => exact hopen d name f hget (hall f hget)
  case withheld => exact hwithheld
  case serialize_iff =>
    intro name f hget
    refine ⟨fun hsame hf => hf.1 ?_, fun hf d => hopen d name f hget hf⟩
    funext d
    rw [← hsame d, hwithheld d name f hget hf, (hnamed name f hget).1]

/-- A format that takes the name of another one answers for it, except for what it withholds. -/
theorem defers_of_reached_draft :
    let draft : Format := { name := "markdown", parses := true, serialize := fun _ => .ok "draft" }
    let r := Registry.standard.register draft
    r.Defers ∧ (∀ d, r.serialize d "markdown" =
      .error (.notSupported "markdown" .serialization)) ∧
      ∀ rules source, r.parse rules source "markdown" =
        .error (.notSupported "markdown" .parsing) := by
  intro draft r
  have hdefers : r.Defers := defers_of_reached (.register .standard (.inr rfl))
  have hget : r.get "markdown" = .ok draft :=
    get_eq_ok_iff.mpr ((StringMap.get?_insert ..).trans (if_pos rfl))
  refine ⟨hdefers, fun d => hdefers.withheld d _ draft hget ⟨fun h => ?_, rfl⟩,
    fun rules source => ?_⟩
  · cases congrFun h .empty
  · rw [hdefers.parse, hget]
    rfl

end Registry
end ChatForms
