import ChatForms.Xml.Document

namespace ChatForms.Xml

/-! ### References -/

theorem isXmlChar_of_charOfNumber? {n : Nat} {c : Char} (h : charOfNumber? n = some c) :
    isXmlChar c = true := by
  simp only [charOfNumber?, Option.ite_none_right_eq_some] at h
  obtain ⟨-, hc, h⟩ := h
  exact Option.some.inj h ▸ hc

theorem isXmlChar_of_resolveReference {body : List Char} {c : Char}
    (h : resolveReference body = some c) : isXmlChar c = true := by
  simp only [resolveReference] at h
  split at h
  · obtain ⟨n, -, hn⟩ := Option.bind_eq_some_iff.mp h
    exact isXmlChar_of_charOfNumber? hn
  · obtain ⟨n, -, hn⟩ := Option.bind_eq_some_iff.mp h
    exact isXmlChar_of_charOfNumber? hn
  all_goals first | (cases h; decide) | simp at h

theorem isXmlChar_of_resolve {body : Option (List Char)} {cs : List Char} {ws : List Written}
    (h : resolve body cs = some ws) (hcs : ∀ c ∈ cs, isXmlChar c = true) :
    ∀ w ∈ ws, isXmlChar w.char = true := by
  induction cs generalizing body ws with
  | nil =>
    cases body with
    | none =>
      cases h
      simp
    | some body => simp [resolve] at h
  | cons c cs ih =>
    have htail : ∀ d ∈ cs, isXmlChar d = true := fun d hd => hcs d (List.mem_cons_of_mem c hd)
    cases body with
    | none =>
      simp only [resolve] at h
      split at h
      · exact ih h htail
      · obtain ⟨rest, hrest, rfl⟩ := Option.map_eq_some_iff.mp h
        intro w hw
        rcases List.mem_cons.mp hw with rfl | hw
        · exact hcs c List.mem_cons_self
        · exact ih hrest htail w hw
    | some body =>
      simp only [resolve] at h
      split at h
      · obtain ⟨r, hr, h⟩ := Option.bind_eq_some_iff.mp h
        obtain ⟨rest, hrest, rfl⟩ := Option.map_eq_some_iff.mp h
        intro w hw
        rcases List.mem_cons.mp hw with rfl | hw
        · exact isXmlChar_of_resolveReference hr
        · exact ih hrest htail w hw
      · exact ih h htail

theorem mem_plainText {isAfter : Bool} {c x : Char} {next : Option Written}
    (h : x ∈ plainText isAfter c next) : x = c ∨ x = '\n' := by
  simp only [plainText] at h
  split at h
  · exact Or.inl (List.mem_singleton.mp h)
  · next hc =>
    obtain rfl : c = '\r' := by simpa using hc
    split at h
    · simp at h
    · exact Or.inr (List.mem_singleton.mp h)
    · exact Or.inl (List.mem_singleton.mp h)
    · split at h
      · exact Or.inl (List.mem_singleton.mp h)
      · exact Or.inr (List.mem_singleton.mp h)

theorem mem_settleLines {isAfter : Bool} {ws : List Written} {x : Char}
    (h : x ∈ settleLines isAfter ws) : x = '\n' ∨ ∃ w ∈ ws, w.char = x := by
  induction ws generalizing isAfter with
  | nil => simp [settleLines] at h
  | cons w ws ih =>
    have htail : ∀ {isAfter}, x ∈ settleLines isAfter ws →
        x = '\n' ∨ ∃ v ∈ w :: ws, v.char = x := by
      intro isAfter h
      rcases ih h with h | ⟨v, hv, hx⟩
      · exact Or.inl h
      · exact Or.inr ⟨v, List.mem_cons_of_mem w hv, hx⟩
    cases w with
    | plain c =>
      rw [settleLines, List.mem_append] at h
      rcases h with h | h
      · rcases mem_plainText h with rfl | h
        · exact Or.inr ⟨.plain x, List.mem_cons_self, rfl⟩
        · exact Or.inl h
      · exact htail h
    | referred c =>
      rw [settleLines, List.mem_cons] at h
      rcases h with rfl | h
      · exact Or.inr ⟨.referred x, List.mem_cons_self, rfl⟩
      · exact htail h

theorem isXmlChar_of_settleLines {isAfter : Bool} {ws : List Written}
    (h : ∀ w ∈ ws, isXmlChar w.char = true) :
    ∀ c ∈ settleLines isAfter ws, isXmlChar c = true := by
  intro c hc
  rcases mem_settleLines hc with rfl | ⟨w, hw, rfl⟩
  · decide
  · exact h w hw

/-- References to characters that no document may hold are refused. -/
theorem isXmlChar_of_decodeText {raw cs : List Char} (h : decodeText raw = some cs)
    (hraw : ∀ c ∈ raw, isXmlChar c = true) : ∀ c ∈ cs, isXmlChar c = true := by
  obtain ⟨ws, hws, rfl⟩ := Option.map_eq_some_iff.mp h
  exact isXmlChar_of_settleLines (isXmlChar_of_resolve hws hraw)

theorem isXmlChar_of_decodeSection {raw : List Char} (hraw : ∀ c ∈ raw, isXmlChar c = true) :
    ∀ c ∈ decodeSection raw, isXmlChar c = true := by
  apply isXmlChar_of_settleLines
  intro w hw
  obtain ⟨c, hc, rfl⟩ := List.mem_map.mp hw
  exact hraw c hc

theorem isXmlChar_of_decodeValue {raw cs : List Char} (h : decodeValue raw = some cs)
    (hraw : ∀ c ∈ raw, isXmlChar c = true) : ∀ c ∈ cs, isXmlChar c = true := by
  obtain ⟨ws, hws, rfl⟩ := Option.map_eq_some_iff.mp h
  intro c hc
  obtain ⟨w, hw, rfl⟩ := List.mem_map.mp hc
  refine isXmlChar_of_resolve hws ?_ w hw
  intro x hx
  obtain ⟨y, hy, rfl⟩ := List.mem_map.mp hx
  split
  · decide
  · exact isXmlChar_of_decodeSection hraw y hy

/-! ### Tokens -/

/-- The characters that a token holds as data. -/
def Token.data : Token → List Char
  | .openTag _ attributes _ => attributes.flatMap (·.2)
  | .text raw | .cdata raw => raw
  | .closeTag _ | .comment _ | .instruction _ _ => []

theorem subset_of_cutAt {mark cs body rest : List Char} (h : cutAt mark cs = some (body, rest)) :
    body ⊆ cs ∧ rest ⊆ cs := by
  induction cs generalizing body with
  | nil => simp [cutAt] at h
  | cons c cs ih =>
    simp only [cutAt] at h
    split at h
    · cases h
      exact ⟨List.nil_subset _, List.drop_subset _ _⟩
    · obtain ⟨⟨body', rest'⟩, hcut, heq⟩ := Option.map_eq_some_iff.mp h
      cases heq
      obtain ⟨hbody, hrest⟩ := ih hcut
      exact ⟨List.cons_subset_cons c hbody, List.subset_cons_of_subset c hrest⟩

theorem subset_of_readName {cs rest : List Char} {name : QName}
    (h : readName cs = some (name, rest)) : rest ⊆ cs := by
  obtain ⟨_, -, heq⟩ := Option.map_eq_some_iff.mp h
  cases heq
  exact List.dropWhile_subset _

theorem skipSpaces_subset (cs : List Char) : skipSpaces cs ⊆ cs := List.dropWhile_subset _

theorem subset_of_readQuoted {cs value rest : List Char}
    (h : readQuoted cs = some (value, rest)) : value ⊆ cs ∧ rest ⊆ cs := by
  cases cs with
  | nil => simp [readQuoted] at h
  | cons q cs =>
    simp only [readQuoted] at h
    split at h
    · split at h
      · next c rest' hdrop =>
        split at h
        · cases h
          refine ⟨List.subset_cons_of_subset q (List.takeWhile_subset _), ?_⟩
          have hsub : c :: rest ⊆ cs := hdrop ▸ List.drop_subset _ _
          have hrest : rest ⊆ cs := List.Subset.trans (List.subset_cons_self c rest) hsub
          exact List.subset_cons_of_subset q hrest
        · simp at h
      · simp at h
    · simp at h

theorem subset_of_readAttribute {cs rest : List Char} {a : QName × List Char}
    (h : readAttribute cs = some (a, rest)) : a.2 ⊆ cs ∧ rest ⊆ cs := by
  obtain ⟨⟨name, afterName⟩, hname, h⟩ := Option.bind_eq_some_iff.mp h
  have hafter := List.Subset.trans (skipSpaces_subset afterName) (subset_of_readName hname)
  dsimp only at h
  split at h
  · next inner hskip =>
    rw [hskip] at hafter
    obtain ⟨⟨value, afterValue⟩, hvalue, h⟩ := Option.bind_eq_some_iff.mp h
    cases h
    obtain ⟨hv, hr⟩ := subset_of_readQuoted hvalue
    have hinner := List.Subset.trans (skipSpaces_subset inner)
      (List.Subset.trans (List.subset_cons_self _ _) hafter)
    exact ⟨List.Subset.trans hv hinner, List.Subset.trans hr hinner⟩
  · simp at h

theorem subset_of_readAttributes {n : Nat} {cs rest : List Char} {isEmpty : Bool}
    {as : List (QName × List Char)} (h : readAttributes n cs = some (as, isEmpty, rest)) :
    as.flatMap (·.2) ⊆ cs ∧ rest ⊆ cs := by
  induction n generalizing cs as with
  | zero => simp [readAttributes] at h
  | succ n ih =>
    have hskip := skipSpaces_subset cs
    simp only [readAttributes] at h
    split at h
    · next heq =>
      cases h
      rw [heq] at hskip
      exact ⟨List.nil_subset _, List.Subset.trans (List.subset_cons_self _ _) hskip⟩
    · next heq =>
      cases h
      rw [heq] at hskip
      exact ⟨List.nil_subset _,
        List.Subset.trans (List.subset_cons_of_subset _ (List.subset_cons_self _ _)) hskip⟩
    · split at h
      · obtain ⟨⟨a, afterFirst⟩, hfirst, h⟩ := Option.bind_eq_some_iff.mp h
        obtain ⟨⟨others, isEmpty', afterAll⟩, hothers, h⟩ := Option.bind_eq_some_iff.mp h
        cases h
        obtain ⟨ha, hafter⟩ := subset_of_readAttribute hfirst
        obtain ⟨hos, hrest⟩ := ih hothers
        have hafter := List.Subset.trans hafter hskip
        rw [List.flatMap_cons]
        exact ⟨List.append_subset.mpr ⟨List.Subset.trans ha hskip, List.Subset.trans hos hafter⟩,
          List.Subset.trans hrest hafter⟩
      · simp at h

theorem subset_of_readOpenTag {cs rest : List Char} {t : Token}
    (h : readOpenTag cs = some (t, rest)) : t.data ⊆ cs ∧ rest ⊆ cs := by
  obtain ⟨⟨name, afterName⟩, hname, h⟩ := Option.bind_eq_some_iff.mp h
  obtain ⟨⟨as, isEmpty, afterAll⟩, has, h⟩ := Option.bind_eq_some_iff.mp h
  cases h
  have hafter := subset_of_readName hname
  obtain ⟨hdata, hrest⟩ := subset_of_readAttributes has
  exact ⟨List.Subset.trans hdata hafter, List.Subset.trans hrest hafter⟩

theorem subset_of_readCloseTag {cs rest : List Char} {t : Token}
    (h : readCloseTag cs = some (t, rest)) : t.data ⊆ cs ∧ rest ⊆ cs := by
  obtain ⟨⟨name, afterName⟩, hname, h⟩ := Option.bind_eq_some_iff.mp h
  have hafter := List.Subset.trans (skipSpaces_subset afterName) (subset_of_readName hname)
  dsimp only at h
  split at h
  · next heq =>
    cases h
    rw [heq] at hafter
    exact ⟨List.nil_subset _, List.Subset.trans (List.subset_cons_self _ _) hafter⟩
  · simp at h

theorem subset_of_readComment {cs rest : List Char} {t : Token}
    (h : readComment cs = some (t, rest)) : t.data ⊆ cs ∧ rest ⊆ cs := by
  obtain ⟨⟨body, after⟩, hcut, h⟩ := Option.bind_eq_some_iff.mp h
  dsimp only at h
  split at h
  · simp at h
  · cases h
    exact ⟨List.nil_subset _, (subset_of_cutAt hcut).2⟩

theorem subset_of_readCData {cs rest : List Char} {t : Token}
    (h : readCData cs = some (t, rest)) : t.data ⊆ cs ∧ rest ⊆ cs := by
  obtain ⟨⟨body, after⟩, hcut, h⟩ := Option.bind_eq_some_iff.mp h
  cases h
  exact subset_of_cutAt hcut

theorem subset_of_readInstruction {cs rest : List Char} {t : Token}
    (h : readInstruction cs = some (t, rest)) : t.data ⊆ cs ∧ rest ⊆ cs := by
  simp only [readInstruction] at h
  split at h
  · simp at h
  · split at h
    · simp at h
    · obtain ⟨⟨body, after⟩, hcut, h⟩ := Option.bind_eq_some_iff.mp h
      cases h
      have hafter :=
        List.Subset.trans (skipSpaces_subset _) (List.dropWhile_subset (l := cs) isNamePart)
      exact ⟨List.nil_subset _, List.Subset.trans (subset_of_cutAt hcut).2 hafter⟩

theorem subset_of_readText {cs rest : List Char} {t : Token}
    (h : readText cs = some (t, rest)) : t.data ⊆ cs ∧ rest ⊆ cs := by
  simp only [readText] at h
  split at h
  · simp at h
  · cases h
    exact ⟨List.takeWhile_subset _, List.dropWhile_subset _⟩

/-- What a token holds, and what comes after it, stood in the text. -/
theorem subset_of_readToken {cs rest : List Char} {t : Token}
    (h : readToken cs = some (t, rest)) : t.data ⊆ cs ∧ rest ⊆ cs := by
  -- each kind of token is read behind its own mark
  have hweaken : ∀ {xs : List Char}, xs ⊆ cs → t.data ⊆ xs ∧ rest ⊆ xs →
      t.data ⊆ cs ∧ rest ⊆ cs :=
    fun hxs hsub => ⟨List.Subset.trans hsub.1 hxs, List.Subset.trans hsub.2 hxs⟩
  simp only [readToken] at h
  split at h
  · exact hweaken (List.drop_subset 4 _) (subset_of_readComment h)
  · exact hweaken (List.drop_subset 9 _) (subset_of_readCData h)
  · exact hweaken (List.drop_subset 2 _) (subset_of_readInstruction h)
  · exact hweaken (List.drop_subset 2 _) (subset_of_readCloseTag h)
  · exact hweaken (List.drop_subset 1 _) (subset_of_readOpenTag h)
  · exact subset_of_readText h

theorem subset_of_readTokens {n : Nat} {cs : List Char} {ts : List Token}
    (h : readTokens n cs = some ts) : ∀ t ∈ ts, t.data ⊆ cs := by
  induction n generalizing cs ts with
  | zero => cases cs <;> simp_all [readTokens]
  | succ n ih =>
    cases cs with
    | nil => simp_all [readTokens]
    | cons c cs =>
      obtain ⟨⟨t, rest⟩, htoken, h⟩ := Option.bind_eq_some_iff.mp h
      obtain ⟨ts, hts, rfl⟩ := Option.map_eq_some_iff.mp h
      obtain ⟨hdata, hrest⟩ := subset_of_readToken htoken
      intro u hu
      rcases List.mem_cons.mp hu with rfl | hu
      · exact hdata
      · exact List.Subset.trans (ih hts u hu) hrest

theorem skipDeclarationGap_subset {cs rest : List Char} (h : skipDeclarationGap cs = some rest) :
    rest ⊆ cs := by
  simp only [skipDeclarationGap] at h
  split at h
  · cases h
    exact skipSpaces_subset cs
  · simp at h

theorem skipAttribute_subset {cs rest : List Char} (h : skipAttribute cs = some rest) :
    rest ⊆ cs := by
  obtain ⟨⟨a, rest'⟩, ha, heq⟩ := Option.map_eq_some_iff.mp h
  cases heq
  exact (subset_of_readAttribute ha).2

/-- A part that may be left out. -/
theorem subset_of_optional {p : Prop} [Decidable p] {cs rest : List Char}
    {part : Option (List Char)} {next : List Char → Option (List Char)}
    (hpart : ∀ ys, part = some ys → ys ⊆ cs) (hnext : ∀ ys, next ys = some rest → rest ⊆ ys)
    (h : (if p then part >>= next else some cs >>= next) = some rest) : rest ⊆ cs := by
  split at h
  · obtain ⟨ys, hys, h⟩ := Option.bind_eq_some_iff.mp h
    exact List.Subset.trans (hnext ys h) (hpart ys hys)
  · exact hnext cs h

theorem subset_of_skipDeclaration {cs rest : List Char} (h : skipDeclaration cs = some rest) :
    rest ⊆ cs := by
  unfold skipDeclaration at h
  by_cases hmark : "<?xml ".toList.isPrefixOf cs = true
  · rw [if_pos hmark] at h
    generalize hstart : skipSpaces (cs.drop 5) = start at h
    have hcs : start ⊆ cs :=
      hstart ▸ List.Subset.trans (skipSpaces_subset _) (List.drop_subset 5 cs)
    by_cases hversion : (!"version".toList.isPrefixOf start) = true
    · rw [if_pos hversion] at h
      obtain ⟨_, hnone, -⟩ := Option.bind_eq_some_iff.mp h
      cases hnone
    · rw [if_neg hversion] at h
      obtain ⟨afterVersion, hafter, h⟩ := Option.bind_eq_some_iff.mp h
      obtain ⟨afterGap, hgap, h⟩ := Option.bind_eq_some_iff.mp h
      have hgap := List.Subset.trans (skipDeclarationGap_subset hgap) (skipAttribute_subset hafter)
      -- the encoding and the standalone part may both be left out
      refine List.Subset.trans (subset_of_optional ?_ ?_ h) (List.Subset.trans hgap hcs)
      · intro ys hys
        obtain ⟨xs, hxs, hys⟩ := Option.bind_eq_some_iff.mp hys
        exact List.Subset.trans (skipDeclarationGap_subset hys) (skipAttribute_subset hxs)
      · intro xs hxs
        refine subset_of_optional (fun ys hys => skipAttribute_subset hys) ?_ hxs
        intro ys hys
        obtain ⟨-, hdrop⟩ := Option.ite_none_right_eq_some.mp hys
        exact Option.some.inj hdrop ▸
          List.Subset.trans (List.drop_subset 2 _) (skipSpaces_subset ys)
  · rw [if_neg hmark] at h
    cases h
    exact List.Subset.refl _

/-! ### Trees -/

def IsLegal (s : String) : Prop := ∀ c ∈ s.toList, isXmlChar c = true

instance (s : String) : Decidable (IsLegal s) := List.decidableBAll _ _

theorem isLegal_ofList {cs : List Char} :
    IsLegal (String.ofList cs) ↔ ∀ c ∈ cs, isXmlChar c = true := by
  rw [IsLegal, String.toList_ofList]

/-- The attribute values and the character data in a piece of content are legal. -/
inductive Node.IsLegal : Node → Prop where
  | element {name : String} {attributes : List (String × String)} {children : List Node}
      (values : ∀ a ∈ attributes, Xml.IsLegal a.2) (inside : ∀ n ∈ children, n.IsLegal) :
      IsLegal (.element name attributes children)
  | text {s : String} (h : Xml.IsLegal s) : IsLegal (.text s)
  | cdata {s : String} (h : Xml.IsLegal s) : IsLegal (.cdata s)
  | comment (s : String) : IsLegal (.comment s)
  | instruction (target content : String) : IsLegal (.instruction target content)

structure OpenElement.IsLegal (e : OpenElement) : Prop where
  values : ∀ a ∈ e.attributes, Xml.IsLegal a.2
  inside : ∀ n ∈ e.children, n.IsLegal

theorem OpenElement.IsLegal.push {e : OpenElement} {n : Node} (he : e.IsLegal) (hn : n.IsLegal) :
    (e.push n).IsLegal := by
  refine ⟨he.values, ?_⟩
  intro m hm
  rcases List.mem_cons.mp hm with rfl | hm
  · exact hn
  · exact he.inside m hm

theorem OpenElement.IsLegal.close {e : OpenElement} (he : e.IsLegal) : e.close.IsLegal :=
  .element he.values fun n hn => he.inside n (List.mem_reverse.mp hn)

theorem isLegal_of_divide {own scope : Scope} {as : List (QName × List Char)}
    {others : List (QName × String)} (h : divide own as = some (scope, others))
    (has : ∀ c ∈ as.flatMap (·.2), isXmlChar c = true) : ∀ a ∈ others, IsLegal a.2 := by
  induction as generalizing own others with
  | nil =>
    cases h
    simp
  | cons a as ih =>
    rw [List.flatMap_cons] at has
    have hhead : ∀ c ∈ a.2, isXmlChar c = true := fun c hc => has c (List.mem_append_left _ hc)
    have htail : ∀ c ∈ as.flatMap (·.2), isXmlChar c = true :=
      fun c hc => has c (List.mem_append_right _ hc)
    obtain ⟨value, hvalue, h⟩ := Option.bind_eq_some_iff.mp h
    dsimp only at h
    split at h
    · split at h
      · exact ih h htail
      · simp at h
    · obtain ⟨⟨scope', others'⟩, hrest, h⟩ := Option.bind_eq_some_iff.mp h
      cases h
      intro b hb
      rcases List.mem_cons.mp hb with rfl | hb
      · exact isLegal_ofList.mpr (isXmlChar_of_decodeValue hvalue hhead)
      · exact ih hrest htail b hb

theorem isLegal_of_localAttributes {scope : Scope} {seen : List (Option String × String)}
    {as : List (QName × String)} {locals : List (String × String)}
    (h : localAttributes scope seen as = some locals) (has : ∀ a ∈ as, IsLegal a.2) :
    ∀ a ∈ locals, IsLegal a.2 := by
  induction as generalizing seen locals with
  | nil =>
    cases h
    simp
  | cons a as ih =>
    obtain ⟨space, -, h⟩ := Option.bind_eq_some_iff.mp h
    dsimp only at h
    split at h
    · obtain ⟨_, hnone, -⟩ := Option.bind_eq_some_iff.mp h
      cases hnone
    · obtain ⟨rest, hrest, rfl⟩ := Option.map_eq_some_iff.mp h
      intro b hb
      rcases List.mem_cons.mp hb with rfl | hb
      · exact has a List.mem_cons_self
      · exact ih hrest (fun d hd => has d (List.mem_cons_of_mem a hd)) b hb

theorem OpenElement.isLegal_of_start {outer : Scope} {name : QName}
    {as : List (QName × List Char)} {e : OpenElement} (h : start outer name as = some e)
    (has : ∀ c ∈ as.flatMap (·.2), isXmlChar c = true) : e.IsLegal := by
  obtain ⟨⟨own, others⟩, hdivide, h⟩ := Option.bind_eq_some_iff.mp h
  dsimp only at h
  split at h
  · obtain ⟨_, hnone, -⟩ := Option.bind_eq_some_iff.mp h
    cases hnone
  · obtain ⟨locals, hlocals, h⟩ := Option.bind_eq_some_iff.mp h
    cases h
    exact ⟨isLegal_of_localAttributes hlocals (isLegal_of_divide hdivide has), by simp⟩

/-- Legal tokens spell a legal tree. -/
theorem isLegal_of_assemble {es : List OpenElement} {root : Option Node} {ts : List Token}
    {n : Node} (h : assemble es root ts = some n) (hes : ∀ e ∈ es, e.IsLegal)
    (hroot : ∀ m, root = some m → m.IsLegal)
    (hts : ∀ t ∈ ts, ∀ c ∈ t.data, isXmlChar c = true) : n.IsLegal := by
  -- what is open and what has been closed stays legal from token to token
  induction ts generalizing es root with
  | nil =>
    cases es with
    | nil => exact hroot n h
    | cons e outer => simp [assemble] at h
  | cons t ts ih =>
    have hhead := hts t List.mem_cons_self
    have htail := fun u hu => hts u (List.mem_cons_of_mem t hu)
    cases es with
    | nil =>
      cases t with
      | openTag name as isEmpty =>
        simp only [assemble] at h
        split at h
        · simp at h
        · obtain ⟨e, he, h⟩ := Option.bind_eq_some_iff.mp h
          have he := OpenElement.isLegal_of_start he hhead
          split at h
          · exact ih h (by simp) (fun m hm => Option.some.inj hm ▸ he.close) htail
          · exact ih h (by simpa using he) (by simp) htail
      | text raw =>
        simp only [assemble] at h
        split at h
        · exact ih h hes hroot htail
        · simp at h
      | comment raw => exact ih h hes hroot htail
      | instruction target content => exact ih h hes hroot htail
      | closeTag name => simp [assemble] at h
      | cdata raw => simp [assemble] at h
    | cons e outer =>
      obtain ⟨he, houter⟩ := List.forall_mem_cons.mp hes
      cases t with
      | openTag name as isEmpty =>
        obtain ⟨inner, hinner, h⟩ := Option.bind_eq_some_iff.mp h
        have hinner := OpenElement.isLegal_of_start hinner hhead
        split at h
        · exact ih h (List.forall_mem_cons.mpr ⟨he.push hinner.close, houter⟩) hroot htail
        · exact ih h (List.forall_mem_cons.mpr ⟨hinner, hes⟩) hroot htail
      | closeTag name =>
        simp only [assemble] at h
        split at h
        · cases outer with
          | nil => exact ih h (by simp) (fun m hm => Option.some.inj hm ▸ he.close) htail
          | cons parent outer =>
            obtain ⟨hparent, houter⟩ := List.forall_mem_cons.mp houter
            exact ih h (List.forall_mem_cons.mpr ⟨hparent.push he.close, houter⟩) hroot htail
        · simp at h
      | text raw =>
        obtain ⟨cs, hcs, h⟩ := Option.bind_eq_some_iff.mp h
        have hlegal := isLegal_ofList.mpr (isXmlChar_of_decodeText hcs hhead)
        exact ih h (List.forall_mem_cons.mpr ⟨he.push (.text hlegal), houter⟩) hroot htail
      | cdata raw =>
        have hlegal := isLegal_ofList.mpr (isXmlChar_of_decodeSection hhead)
        exact ih h (List.forall_mem_cons.mpr ⟨he.push (.cdata hlegal), houter⟩) hroot htail
      | comment raw =>
        exact ih h (List.forall_mem_cons.mpr ⟨he.push (.comment _), houter⟩) hroot htail
      | instruction target content =>
        exact ih h (List.forall_mem_cons.mpr ⟨he.push (.instruction _ _), houter⟩) hroot htail

/-- Whatever a document says about its characters, it holds legal ones only. -/
theorem isLegal_of_read {source : String} {n : Node} (h : read source = some n) : n.IsLegal := by
  simp only [read] at h
  split at h
  · obtain ⟨_, hnone, -⟩ := Option.bind_eq_some_iff.mp h
    cases hnone
  · next hall =>
    obtain ⟨rest, hrest, h⟩ := Option.bind_eq_some_iff.mp h
    obtain ⟨ts, hts, h⟩ := Option.bind_eq_some_iff.mp h
    apply isLegal_of_assemble h (by simp) (by simp)
    intro t ht c hc
    have hmem := subset_of_skipDeclaration hrest (subset_of_readTokens hts t ht hc)
    simp only [Bool.not_eq_true, Bool.not_eq_false', List.all_eq_true] at hall
    exact hall c hmem

end ChatForms.Xml
