import ChatForms.Proofs.Build.Loosening
import ChatForms.Proofs.Settings.Leaf
import Mathlib.Logic.Relation

namespace ChatForms.Settings

/-! ### Reading the settings off single values -/

/-- Whether a value can be the one of a setting. -/
def Leaf.accepts (l : Leaf) (v : Value) : Bool :=
  match l with
  | button | checkbox | personSelector => v.policy?.isSome
  | defaultTarget => v.text?.isSome
  | prettyJson => v.flag?.isSome

/-- The settings that a value for each of them amounts to. -/
structure Reads (s : Settings) (f : Leaf → Value) : Prop where
  button : (f .button).policy? = some s.button
  checkbox : (f .checkbox).policy? = some s.checkbox
  personSelector : (f .personSelector).policy? = some s.personSelector
  defaultTarget : (f .defaultTarget).text? = some s.defaultTarget
  prettyJson : (f .prettyJson).flag? = some s.prettyJson

def settings? (f : Leaf → Value) : Option Settings := do
  pure {
    button := ← (f .button).policy?
    checkbox := ← (f .checkbox).policy?
    personSelector := ← (f .personSelector).policy?
    defaultTarget := ← (f .defaultTarget).text?
    prettyJson := ← (f .prettyJson).flag? }

theorem settings?_eq_some_iff {f : Leaf → Value} {s : Settings} :
    settings? f = some s ↔ Reads s f := by
  constructor
  · intro h
    simp only [settings?, Option.bind_eq_bind, Option.bind_eq_some_iff, Option.pure_def] at h
    obtain ⟨button, hbutton, checkbox, hcheckbox, personSelector, hpersonSelector,
      defaultTarget, hdefaultTarget, prettyJson, hprettyJson, hs⟩ := h
    cases hs
    exact ⟨hbutton, hcheckbox, hpersonSelector, hdefaultTarget, hprettyJson⟩
  · intro h
    simp only [settings?, h.button, h.checkbox, h.personSelector, h.defaultTarget, h.prettyJson]
    rfl

instance (s : Settings) (f : Leaf → Value) : Decidable (Reads s f) :=
  decidable_of_iff (settings? f = some s) settings?_eq_some_iff

theorem isSome_settings?_iff {f : Leaf → Value} :
    (settings? f).isSome = true ↔ ∀ l : Leaf, l.accepts (f l) = true := by
  constructor
  · intro h l
    obtain ⟨s, hs⟩ := Option.isSome_iff_exists.mp h
    have hreads := settings?_eq_some_iff.mp hs
    cases l <;>
      simp only [Leaf.accepts, hreads.button, hreads.checkbox, hreads.personSelector,
        hreads.defaultTarget, hreads.prettyJson, Option.isSome_some]
  · intro h
    obtain ⟨button, hbutton⟩ := Option.isSome_iff_exists.mp (h .button)
    obtain ⟨checkbox, hcheckbox⟩ := Option.isSome_iff_exists.mp (h .checkbox)
    obtain ⟨personSelector, hpersonSelector⟩ := Option.isSome_iff_exists.mp (h .personSelector)
    obtain ⟨defaultTarget, hdefaultTarget⟩ := Option.isSome_iff_exists.mp (h .defaultTarget)
    obtain ⟨prettyJson, hprettyJson⟩ := Option.isSome_iff_exists.mp (h .prettyJson)
    have hreads : Reads ⟨button, checkbox, personSelector, defaultTarget, prettyJson⟩ f :=
      ⟨hbutton, hcheckbox, hpersonSelector, hdefaultTarget, hprettyJson⟩
    rw [settings?_eq_some_iff.mpr hreads]
    rfl

namespace Value

/-- Only tables have members by name, so the place of a member does not matter here. -/
theorem member?_of_lookup {v x : Value} {name : String} (h : v.asTable.lookup name = some x)
    (i : Nat) : v.member? i name = some x := by
  cases v with
  | table entries => exact h
  | _ => cases h

theorem exists_member? {v x : Value} {l : Leaf} (h : v.leaf? l = some x) :
    ∃ members : Value, (∀ i, v.member? i l.group = some members) ∧
      ∀ i, members.member? i l.name = some x := by
  obtain ⟨members, hgroup, hname⟩ := Option.bind_eq_some_iff.mp h
  exact ⟨members, member?_of_lookup hgroup, member?_of_lookup hname⟩

end Value

/-- A value that has one for each setting is examined through these alone. -/
theorem ofValue?_eq {v : Value} {f : Leaf → Value} (h : ∀ l, v.leaf? l = some (f l)) :
    ofValue? v = settings? f := by
  obtain ⟨containment, hcontainment, hbutton⟩ := Value.exists_member? (h .button)
  obtain ⟨own, hown, hcheckbox⟩ := Value.exists_member? (h .checkbox)
  cases (hcontainment 0).symm.trans (hown 0)
  obtain ⟨own, hown, hpersonSelector⟩ := Value.exists_member? (h .personSelector)
  cases (hcontainment 0).symm.trans (hown 0)
  obtain ⟨convert, hconvert, hdefaultTarget⟩ := Value.exists_member? (h .defaultTarget)
  obtain ⟨inspect, hinspect, hprettyJson⟩ := Value.exists_member? (h .prettyJson)
  simp only [Leaf.group, Leaf.name] at *
  simp only [ofValue?, settings?, hcontainment, hconvert, hinspect, hbutton, hcheckbox,
    hpersonSelector, hdefaultTarget, hprettyJson, Option.bind_eq_bind, Option.bind_some]

/-! ### Layers one by one -/

/-- What can be put on top of the layers that there are. -/
inductive Layer where
  | file (f : FileLayer)
  | assignment (key : String) (value : Value)

namespace Layers

def add? (ls : Layers) : Layer → Option Layers
  | .file f => some (ls.addFile f.isRequired f.text)
  | .assignment key value => ls.assign? key value

/-- The value whose settings count. -/
def merged (ls : Layers) : Except LoadFault Value := do
  let filed ← ls.files.foldlM mergeFile defaults
  pure (ls.assignments.foldl (fun v a => v.setPath a.1 a.2) filed)

theorem load_of_merged {ls : Layers} {v : Value} (h : ls.merged = .ok v) :
    ls.load = (match ofValue? v with
      | some s => .ok s
      | none => .error .unusableValue) := by
  unfold merged at h
  unfold load
  cases hfiled : ls.files.foldlM mergeFile defaults with
  | error fault => rw [hfiled] at h; cases h
  | ok filed => rw [hfiled] at h; cases h; rfl

theorem load_of_files {ls : Layers} {fault : LoadFault}
    (h : ls.files.foldlM mergeFile defaults = .error fault) : ls.load = .error fault := by
  unfold load
  rw [h]
  rfl

end Layers

def collect? (layers : List Layer) : Option Layers := layers.foldlM Layers.add? .empty

/-- Nothing can be loaded if the key of an assignment is not written as a path. -/
def load? (layers : List Layer) : Option (Except LoadFault Settings) :=
  (collect? layers).map Layers.load

namespace FileLayer

/-- The file has to be there but is not. -/
def isMissing (f : FileLayer) : Bool := f.isRequired && f.text.isNone

/-- The text, if there is one, is well-formed and gives no setting a table. -/
def IsPlain (f : FileLayer) : Prop :=
  ∀ text ∈ f.text, ∃ t ∈ Toml.read text, ∀ a ∈ assignments t, a.1.Suits a.2

instance (f : FileLayer) : Decidable f.IsPlain :=
  inferInstanceAs (Decidable (∀ text ∈ f.text, ∃ t ∈ Toml.read text, _))

/-- What the file assigns to a setting. -/
def filed? (l : Leaf) (f : FileLayer) : Option Value :=
  (f.text.bind Toml.read).bind fun t => last? (given? l) (assignments t)

end FileLayer

namespace Layer

def file? : Layer → Option FileLayer
  | file f => some f
  | assignment _ _ => none

def assignment? : Layer → Option (KeyPath × Value)
  | file _ => none
  | assignment key value => (KeyPath.parse? key).map fun path => (path, value)

def isMissing : Layer → Bool
  | file f => f.isMissing
  | assignment _ _ => false

/-- Assignments are to the settings, by their own keys. -/
def IsPlain : Layer → Prop
  | file f => f.IsPlain
  | assignment key value => (∃ l : Leaf, key = l.key) ∧ value.isTable = false

instance : (x : Layer) → Decidable x.IsPlain
  | file f => inferInstanceAs (Decidable f.IsPlain)
  | assignment key value =>
    inferInstanceAs (Decidable ((∃ l : Leaf, key = l.key) ∧ value.isTable = false))

def filed? (l : Leaf) : Layer → Option Value
  | file f => f.filed? l
  | assignment _ _ => none

def assigned? (l : Leaf) : Layer → Option Value
  | file _ => none
  | assignment key value => if key = l.key then some value else none

end Layer

/-- The value of a setting is that of its last assignment, or else that of the last file that
assigns it, or else that of the defaults. -/
def winner (layers : List Layer) (l : Leaf) : Value :=
  ((last? (Layer.assigned? l) layers).or (last? (Layer.filed? l) layers)).getD l.default

/-! ### What the layers merge into -/

section Merging
variable {layers : List Layer}

theorem foldlM_add? (h : ∀ x ∈ layers, x.IsPlain) (ls : Layers) :
    layers.foldlM Layers.add? ls =
      some ⟨ls.files ++ layers.filterMap Layer.file?,
        ls.assignments ++ layers.filterMap Layer.assignment?⟩ := by
  induction layers generalizing ls with
  | nil => simp
  | cons x layers ih =>
    obtain ⟨hx, hlayers⟩ := List.forall_mem_cons.mp h
    cases x with
    | file f =>
      rw [List.foldlM_cons, Layers.add?, Option.bind_eq_bind, Option.bind_some, ih hlayers]
      simp [Layers.addFile, Layer.file?, Layer.assignment?, List.filterMap_cons]
    | assignment key value =>
      obtain ⟨⟨l, rfl⟩, -⟩ := hx
      rw [List.foldlM_cons, Layers.add?, Layers.assign?, l.parse_key, Option.map_some,
        Option.bind_eq_bind, Option.bind_some, ih hlayers]
      simp [Layer.file?, Layer.assignment?, List.filterMap_cons, l.parse_key]

theorem collect?_eq (h : ∀ x ∈ layers, x.IsPlain) :
    collect? layers =
      some ⟨layers.filterMap Layer.file?, layers.filterMap Layer.assignment?⟩ :=
  foldlM_add? h .empty

theorem mergeFile_of_isMissing {f : FileLayer} (h : f.isMissing = true) (v : Value) :
    Layers.mergeFile v f = .error .unreadableFile := by
  obtain ⟨hrequired, htext⟩ : f.isRequired = true ∧ f.text = none := by
    simpa [FileLayer.isMissing] using h
  rw [Layers.mergeFile, htext, hrequired]
  rfl

/-- A file gives each setting what it assigns to it and leaves the others as they are. -/
theorem exists_mergeFile {f : FileLayer} (hf : f.IsPlain) (h : f.isMissing = false) (v : Value) :
    ∃ v', Layers.mergeFile v f = .ok v' ∧
      ∀ l : Leaf, v'.leaf? l = (f.filed? l).or (v.leaf? l) := by
  cases htext : f.text with
  | none =>
    have hrequired : f.isRequired = false := by simpa [FileLayer.isMissing, htext] using h
    refine ⟨v, by rw [Layers.mergeFile, htext, hrequired]; rfl, fun l => ?_⟩
    rw [FileLayer.filed?, htext]
    rfl
  | some text =>
    obtain ⟨t, hread, ht⟩ := hf text htext
    rw [Option.mem_def] at hread
    refine ⟨Layers.mergeTable v t, by simp only [Layers.mergeFile, htext, hread], fun l => ?_⟩
    rw [leaf?_mergeTable ht, FileLayer.filed?, htext, Option.bind_some, hread, Option.bind_some]

theorem foldlM_mergeFile_of_isMissing {files : List FileLayer} (hfiles : ∀ f ∈ files, f.IsPlain)
    (h : ∃ f ∈ files, f.isMissing = true) (v : Value) :
    files.foldlM Layers.mergeFile v = .error .unreadableFile := by
  induction files generalizing v with
  | nil => simp at h
  | cons f files ih =>
    obtain ⟨hf, hfiles⟩ := List.forall_mem_cons.mp hfiles
    rw [List.foldlM_cons]
    cases hmissing : f.isMissing with
    | true => rw [mergeFile_of_isMissing hmissing]; rfl
    | false =>
      obtain ⟨v', hv', -⟩ := exists_mergeFile hf hmissing v
      rw [hv']
      exact ih hfiles (by simpa [hmissing] using h) v'

theorem exists_foldlM_mergeFile {files : List FileLayer} (hfiles : ∀ f ∈ files, f.IsPlain)
    (h : ∀ f ∈ files, f.isMissing = false) (v : Value) :
    ∃ v', files.foldlM Layers.mergeFile v = .ok v' ∧
      ∀ l : Leaf, v'.leaf? l = (last? (FileLayer.filed? l) files).or (v.leaf? l) := by
  induction files generalizing v with
  | nil => exact ⟨v, rfl, fun l => rfl⟩
  | cons f files ih =>
    obtain ⟨hf, hfiles⟩ := List.forall_mem_cons.mp hfiles
    obtain ⟨hpresent, h⟩ := List.forall_mem_cons.mp h
    obtain ⟨v', hv', hleaf'⟩ := exists_mergeFile hf hpresent v
    obtain ⟨v'', hv'', hleaf''⟩ := ih hfiles h v'
    refine ⟨v'', by rw [List.foldlM_cons, hv']; exact hv'', fun l => ?_⟩
    rw [hleaf'', hleaf', last?_cons, Option.or_assoc]

theorem Layer.suits_of_assignment? {x : Layer} (h : x.IsPlain) {a : KeyPath × Value}
    (ha : x.assignment? = some a) : a.1.Suits a.2 := by
  cases x with
  | file f => cases ha
  | assignment key value =>
    obtain ⟨⟨l, rfl⟩, hvalue⟩ := h
    rw [Layer.assignment?, l.parse_key, Option.map_some] at ha
    cases ha
    intro l'
    by_cases hl : l = l'
    · subst hl
      exact .inr ⟨l.isFor_own, hvalue⟩
    · exact .inl (Leaf.isApart_own hl)

theorem Layer.assigned?_eq {x : Layer} (h : x.IsPlain) (l : Leaf) :
    x.assignment?.bind (given? l) = x.assigned? l := by
  cases x with
  | file f => rfl
  | assignment key value =>
    obtain ⟨⟨l', rfl⟩, -⟩ := h
    rw [Layer.assignment?, l'.parse_key, Option.map_some, Option.bind_some, given?, Layer.assigned?]
    by_cases hl : l' = l
    · subst hl
      rw [if_pos l'.isFor_own, if_pos rfl]
    · rw [if_neg (fun hkey => hl (Leaf.eq_of_key hkey)),
        KeyPath.isFor_of_isApart (Leaf.isApart_own hl)]
      rfl

theorem Layer.filed?_eq (x : Layer) (l : Leaf) :
    x.file?.bind (FileLayer.filed? l) = x.filed? l := by
  cases x <;> rfl

theorem mem_files_iff {f : FileLayer} :
    f ∈ layers.filterMap Layer.file? ↔ Layer.file f ∈ layers := by
  rw [List.mem_filterMap]
  constructor
  · rintro ⟨x, hx, hfile⟩
    cases x with
    | file f' => cases hfile; exact hx
    | assignment key value => cases hfile
  · exact fun h => ⟨_, h, rfl⟩

theorem exists_isMissing_iff :
    (∃ x ∈ layers, x.isMissing = true) ↔
      ∃ f ∈ layers.filterMap Layer.file?, f.isMissing = true := by
  constructor
  · rintro ⟨x, hx, hmissing⟩
    cases x with
    | file f => exact ⟨f, mem_files_iff.mpr hx, hmissing⟩
    | assignment key value => cases hmissing
  · rintro ⟨f, hf, hmissing⟩
    exact ⟨_, mem_files_iff.mp hf, hmissing⟩

/-- If no file is missing, every setting ends up with the value that wins. -/
theorem exists_merged (hplain : ∀ x ∈ layers, x.IsPlain)
    (hpresent : ¬∃ x ∈ layers, x.isMissing = true) :
    ∃ ls v, collect? layers = some ls ∧ ls.merged = .ok v ∧
      ∀ l : Leaf, v.leaf? l = some (winner layers l) := by
  have hfiles : ∀ f ∈ layers.filterMap Layer.file?, f.IsPlain := fun f hf =>
    hplain _ (mem_files_iff.mp hf)
  have hthere : ∀ f ∈ layers.filterMap Layer.file?, f.isMissing = false := fun f hf =>
    Bool.eq_false_iff.mpr fun hmissing => hpresent (exists_isMissing_iff.mpr ⟨f, hf, hmissing⟩)
  obtain ⟨filed, hfiled, hleaf⟩ := exists_foldlM_mergeFile hfiles hthere defaults
  refine ⟨_, _, collect?_eq hplain, by rw [Layers.merged, hfiled]; rfl, fun l => ?_⟩
  have hlastAssigned : last? (given? l) (layers.filterMap Layer.assignment?) =
      last? (Layer.assigned? l) layers :=
    last?_filterMap fun x hx => Layer.assigned?_eq (hplain x hx) l
  have hlastFiled : last? (FileLayer.filed? l) (layers.filterMap Layer.file?) =
      last? (Layer.filed? l) layers :=
    last?_filterMap fun x _ => Layer.filed?_eq x l
  rw [Value.leaf?_setPaths, hleaf, hlastAssigned, hlastFiled, Value.leaf?_defaults,
    ← Option.or_assoc, winner]
  · cases (last? (Layer.assigned? l) layers).or (last? (Layer.filed? l) layers) <;> rfl
  · intro a ha
    obtain ⟨x, hx, hassignment⟩ := List.mem_filterMap.mp ha
    exact Layer.suits_of_assignment? (hplain x hx) hassignment

end Merging

/-! ### What can be loaded -/

/-- What layers come to, judged by the files that are missing and by the values that win. -/
def outcome (layers : List Layer) : Except LoadFault Settings :=
  if layers.any Layer.isMissing then .error .unreadableFile
  else match settings? (winner layers) with
    | some s => .ok s
    | none => .error .unusableValue

theorem load?_eq {layers : List Layer} (h : ∀ x ∈ layers, x.IsPlain) :
    load? layers = some (outcome layers) := by
  by_cases hmissing : ∃ x ∈ layers, x.isMissing = true
  · rw [load?, collect?_eq h, Option.map_some, outcome, if_pos (List.any_eq_true.mpr hmissing)]
    congr 1
    exact Layers.load_of_files (foldlM_mergeFile_of_isMissing
      (fun f hf => h _ (mem_files_iff.mp hf)) (exists_isMissing_iff.mp hmissing) defaults)
  · obtain ⟨ls, v, hcollect, hmerged, hleaf⟩ := exists_merged h hmissing
    rw [load?, hcollect, Option.map_some, outcome, if_neg (hmissing ∘ List.any_eq_true.mp),
      Layers.load_of_merged hmerged, ofValue?_eq hleaf]

/-! ### Layers in another order -/

/-- A change to a list of layers that makes no difference to any setting. An assignment goes past a
file, or past an assignment to another key. An assignment is left out that a later one to its key
replaces, or a file that is not there and need not be. -/
inductive Moves : List Layer → List Layer → Prop
  | pass (before after : List Layer) (f : FileLayer) (key : String) (value : Value) :
    Moves (before ++ .file f :: .assignment key value :: after)
      (before ++ .assignment key value :: .file f :: after)
  | swap (before after : List Layer) (key key' : String) (value value' : Value) (h : key ≠ key') :
    Moves (before ++ .assignment key value :: .assignment key' value' :: after)
      (before ++ .assignment key' value' :: .assignment key value :: after)
  | replaced (before between after : List Layer) (key : String) (value value' : Value) :
    Moves (before ++ .assignment key value :: (between ++ .assignment key value' :: after))
      (before ++ (between ++ .assignment key value' :: after))
  | absent (before after : List Layer) :
    Moves (before ++ .file ⟨false, none⟩ :: after) (before ++ after)

section Moving
variable {xs ys : List Layer}

theorem Moves.filed? (h : Moves xs ys) (l : Leaf) :
    last? (Layer.filed? l) xs = last? (Layer.filed? l) ys := by
  cases h with
  | pass before after f key value => exact last?_swap (.inr rfl) before after
  | swap before after => exact last?_swap (.inr rfl) before after
  | replaced before between after => exact last?_drop (.inl rfl) before
  | absent before after => exact last?_drop (.inl rfl) before

theorem Moves.assigned? (h : Moves xs ys) (l : Leaf) :
    last? (Layer.assigned? l) xs = last? (Layer.assigned? l) ys := by
  cases h with
  | pass before after f key value => exact last?_swap (.inl rfl) before after
  | swap before after key key' value value' h =>
    refine last?_swap ?_ before after
    by_cases hkey : key = l.key
    · exact .inr (if_neg fun hkey' => h (hkey.trans hkey'.symm))
    · exact .inl (if_neg hkey)
  | replaced before between after key value value' =>
    refine last?_drop ?_ before
    by_cases hkey : key = l.key
    · have hlast : Layer.assigned? l (.assignment key value') = some value' := if_pos hkey
      rw [last?_append, last?_cons, hlast]
      simp
    · exact .inl (if_neg hkey)
  | absent before after => exact last?_drop (.inl rfl) before

theorem Moves.any_isMissing (h : Moves xs ys) :
    xs.any Layer.isMissing = ys.any Layer.isMissing := by
  cases h <;> simp [Layer.isMissing, FileLayer.isMissing]

theorem Moves.outcome_eq (h : Moves xs ys) : outcome xs = outcome ys := by
  have hwinner : winner xs = winner ys := funext fun l => by
    rw [winner, winner, h.assigned?, h.filed?]
  rw [outcome, outcome, hwinner, h.any_isMissing]

/-- No change makes a layer that was not there. -/
theorem Moves.isPlain (h : Moves xs ys) (hxs : ∀ x ∈ xs, x.IsPlain) : ∀ y ∈ ys, y.IsPlain := by
  cases h <;> grind

end Moving

/-- A change among layers whose files are well-formed and whose assignments are to settings. -/
def Rearranges (xs ys : List Layer) : Prop := (∀ x ∈ xs, x.IsPlain) ∧ Moves xs ys

theorem Rearranges.load?_eq {xs ys : List Layer} (h : Rearranges xs ys) : load? ys = load? xs := by
  obtain ⟨hplain, hmoves⟩ := h
  rw [Settings.load?_eq hplain, Settings.load?_eq (hmoves.isPlain hplain), hmoves.outcome_eq]

theorem load?_eq_of_eqvGen {xs ys : List Layer} (h : Relation.EqvGen Rearranges xs ys) :
    load? ys = load? xs := by
  induction h with
  | rel xs ys h => exact h.load?_eq
  | refl xs => rfl
  | symm xs ys _ ih => exact ih.symm
  | trans xs ys zs _ _ hxy hyz => exact hyz.trans hxy

/-! ### The whole of it -/

/-- What can be said of settings that are loaded from layers. -/
structure Loads (layers : List Layer) : Prop where
  /-- In the value that is examined, every setting has the value that wins. -/
  leaves : (¬∃ x ∈ layers, x.isMissing = true) →
    ∃ ls v, collect? layers = some ls ∧ ls.merged = .ok v ∧
      ∀ l : Leaf, v.leaf? l = some (winner layers l)
  loaded_iff : ∀ s, load? layers = some (.ok s) ↔
    (¬∃ x ∈ layers, x.isMissing = true) ∧ Reads s (winner layers)
  /-- Only values that win can make loading fail. -/
  failed_iff : (∃ fault, load? layers = some (.error fault)) ↔
    (∃ x ∈ layers, x.isMissing = true) ∨ ∃ l : Leaf, l.accepts (winner layers l) = false
  rearranged : ∀ layers', Relation.EqvGen Rearranges layers layers' →
    load? layers' = load? layers
  /-- For building a document only the three policies count. -/
  ruled : ∀ s, load? layers = some (.ok s) → ∀ rules : Containment,
    rules.policy? .button = some s.button → rules.policy? .checkbox = some s.checkbox →
    rules.policy? .personSelector = some s.personSelector →
    ∀ m, Document.build s.containment m = Document.build rules m

theorem outcome_eq_ok_iff {layers : List Layer} {s : Settings} : outcome layers = .ok s ↔
    (¬∃ x ∈ layers, x.isMissing = true) ∧ Reads s (winner layers) := by
  rw [← List.any_eq_true, ← settings?_eq_some_iff, outcome]
  split
  · simp_all
  · split <;> simp_all

theorem outcome_eq_error_iff {layers : List Layer} : (∃ fault, outcome layers = .error fault) ↔
    (∃ x ∈ layers, x.isMissing = true) ∨ ∃ l : Leaf, l.accepts (winner layers l) = false := by
  have haccepts : (∃ l : Leaf, l.accepts (winner layers l) = false) ↔
      (settings? (winner layers)).isSome = false := by
    rw [← Bool.not_eq_true, isSome_settings?_iff]
    simp
  rw [← List.any_eq_true, haccepts, outcome]
  split
  · simp_all
  · split <;> simp_all

theorem build_eq_of_policies {s : Settings} {rules : Containment}
    (hbutton : rules.policy? .button = some s.button)
    (hcheckbox : rules.policy? .checkbox = some s.checkbox)
    (hpersonSelector : rules.policy? .personSelector = some s.personSelector) (m : Markup) :
    Document.build s.containment m = Document.build rules m := by
  refine Document.build_congr (fun k hk => ?_) m
  simp only [Kind.fields, List.mem_cons, List.not_mem_nil, or_false] at hk
  rcases hk with rfl | rfl | rfl
  · exact hbutton.symm
  · exact hcheckbox.symm
  · exact hpersonSelector.symm

/-- Later files win over earlier ones and assignments over files, wherever they stand. A value that
does not win does no harm. -/
theorem loads_of_isPlain {layers : List Layer} (h : ∀ x ∈ layers, x.IsPlain) : Loads layers where
  leaves := exists_merged h
  loaded_iff s := by rw [load?_eq h, Option.some_inj, outcome_eq_ok_iff]
  failed_iff := by simp only [load?_eq h, Option.some_inj, outcome_eq_error_iff]
  rearranged _ := load?_eq_of_eqvGen
  ruled _ _ _ := build_eq_of_policies

/-- Unusable values in an assignment and in a file, both replaced in the end. -/
def hushed : List Layer := [
  .assignment "containment.button" (.string "sometimes"),
  .file ⟨true, some "containment.button = 'always'\n[inspect]\npretty_json = 'off'\n"⟩,
  .assignment "containment.button" (.string "direct"),
  .file ⟨false, none⟩]

theorem loads_of_isPlain_hushed :
    (∀ x ∈ hushed, x.IsPlain) ∧
      load? hushed = some (.ok ⟨.direct, .transitive, .direct, "presentationml", false⟩) := by
  have hplain : ∀ x ∈ hushed, x.IsPlain := by decide +kernel
  exact ⟨hplain, ((loads_of_isPlain hplain).loaded_iff _).mpr
    ⟨by decide, by decide +kernel⟩⟩

end ChatForms.Settings
