import ChatForms.Json
import ChatForms.Text.Blank
import ChatForms.Text.Digits

namespace ChatForms.Json

/-- What is handed on from items and members to the data around them holds of all data. -/
theorem induction {motive : Json → Prop} (string : ∀ s, motive (string s))
    (list : ∀ items, (∀ j ∈ items, motive j) → motive (list items))
    (record : ∀ members, (∀ m ∈ members, motive m.2) → motive (record members)) (j : Json) :
    motive j := by
  match j with
  | .string s => exact string s
  | .list items =>
    refine list items fun j hj => ?_
    have := List.sizeOf_lt_of_mem hj
    exact induction string list record j
  | .record members =>
    refine record members fun m hm => ?_
    have hmember := List.sizeOf_lt_of_mem hm
    have : sizeOf m.2 < sizeOf m := by
      cases m
      simp +arith
    exact induction string list record m.2

/-! ### Texts with commas between them -/

def separated {α : Type} (write : α → List Char) : List α → List Char
  | [] => []
  | a :: as => write a ++ as.flatMap fun a => ',' :: write a

theorem toList_compactItems (items : List Json) :
    (compactItems items).toList = separated (fun j => j.compact.toList) items := by
  induction items with
  | nil => rfl
  | cons j js ih => cases js <;> simp_all [compactItems, separated]

theorem toList_compactMembers (members : List (String × Json)) :
    (compactMembers members).toList = separated (fun m => (compactMember m).toList) members := by
  induction members with
  | nil => rfl
  | cons m ms ih => cases ms <;> simp_all [compactMembers, separated]

theorem toList_prettyItems (depth : Nat) (items : List Json) :
    (prettyItems depth items).toList =
      separated (fun j => (newLine depth).toList ++ (j.pretty depth).toList) items := by
  induction items with
  | nil => rfl
  | cons j js ih => cases js <;> simp_all [prettyItems, separated]

theorem toList_prettyMembers (depth : Nat) (members : List (String × Json)) :
    (prettyMembers depth members).toList =
      separated (fun m => (prettyMember depth m).toList) members := by
  induction members with
  | nil => rfl
  | cons m ms ih => cases ms <;> simp_all [prettyMembers, separated]

/-! ### Data can be told from its text -/

/-- Whatever comes behind the text of `a`, it is not taken for another text of the same writer. -/
def Determines {α : Type} (write : α → List Char) (a : α) : Prop :=
  ∀ b rest rest', write a ++ rest = write b ++ rest' → a = b ∧ rest = rest'

theorem flatMap_comma_inj {α : Type} {write : α → List Char} {close : Char} (hclose : close ≠ ',')
    {as bs : List α} (has : ∀ a ∈ as, Determines write a) {rest rest' : List Char}
    (h : (as.flatMap fun a => ',' :: write a) ++ close :: rest =
      (bs.flatMap fun b => ',' :: write b) ++ close :: rest') : as = bs ∧ rest = rest' := by
  induction as generalizing bs with
  | nil =>
    cases bs with
    | nil => exact ⟨rfl, (List.cons.inj h).2⟩
    | cons b bs => exact absurd (List.cons.inj h).1 hclose
  | cons a as ih =>
    obtain ⟨ha, has⟩ := List.forall_mem_cons.mp has
    cases bs with
    | nil => exact absurd (List.cons.inj h).1.symm hclose
    | cons b bs =>
      simp only [List.flatMap_cons, List.cons_append, List.append_assoc] at h
      obtain ⟨rfl, hlater⟩ := ha b _ _ (List.cons.inj h).2
      obtain ⟨rfl, hrest⟩ := ih has hlater
      exact ⟨rfl, hrest⟩

/-- A list that ends with a mark of its own can be told from what comes behind it. -/
theorem separated_inj {α : Type} {write : α → List Char} {close : Char} (hclose : close ≠ ',')
    (hopen : ∀ a rest rest', write a ++ rest ≠ close :: rest') {as bs : List α}
    (has : ∀ a ∈ as, Determines write a) {rest rest' : List Char}
    (h : separated write as ++ close :: rest = separated write bs ++ close :: rest') :
    as = bs ∧ rest = rest' := by
  cases as with
  | nil =>
    cases bs with
    | nil => exact ⟨rfl, (List.cons.inj h).2⟩
    | cons b bs =>
      simp only [separated, List.nil_append, List.append_assoc] at h
      exact absurd h.symm (hopen b _ _)
  | cons a as =>
    obtain ⟨ha, has⟩ := List.forall_mem_cons.mp has
    cases bs with
    | nil =>
      simp only [separated, List.nil_append, List.append_assoc] at h
      exact absurd h (hopen a _ _)
    | cons b bs =>
      simp only [separated, List.append_assoc] at h
      obtain ⟨rfl, hlater⟩ := ha b _ _ h
      obtain ⟨rfl, hrest⟩ := flatMap_comma_inj hclose has hlater
      exact ⟨rfl, hrest⟩

/-- The character at the front of an escaped text, and the text behind it. -/
def unescape : List Char → Option (Char × List Char)
  | '\\' :: 'b' :: rest => some ('\x08', rest)
  | '\\' :: 't' :: rest => some ('\t', rest)
  | '\\' :: 'n' :: rest => some ('\n', rest)
  | '\\' :: 'f' :: rest => some ('\x0c', rest)
  | '\\' :: 'r' :: rest => some ('\r', rest)
  | '\\' :: 'u' :: '0' :: '0' :: high :: low :: rest => do
    let h ← Text.digitValue? high
    let l ← Text.digitValue? low
    pure (Char.ofNat (16 * h + l), rest)
  | '\\' :: c :: rest => some (c, rest)
  | c :: rest => some (c, rest)
  | [] => none

theorem digitValue?_hexDigit : ∀ n < 16, Text.digitValue? (hexDigit n) = some n := by decide

/-- A character has a short escape, is given by its number, or stands for itself. -/
theorem escapeChar_cases (c : Char) :
    c ∈ ['"', '\\', '\x08', '\t', '\n', '\x0c', '\r'] ∨
      (∃ high < 16, ∃ low < 16, 16 * high + low = c.toNat ∧
        escapeChar c = ['\\', 'u', '0', '0', hexDigit high, hexDigit low]) ∨
      (c ≠ '"' ∧ c ≠ '\\') ∧ escapeChar c = [c] := by
  by_cases hshort : c ∈ ['"', '\\', '\x08', '\t', '\n', '\x0c', '\r']
  · exact Or.inl hshort
  · refine Or.inr ?_
    simp only [List.mem_cons, List.not_mem_nil, or_false, not_or] at hshort
    by_cases hcontrol : c.toNat < 0x20
    · refine Or.inl ⟨c.toNat / 16, by omega, c.toNat % 16, by omega, Nat.div_add_mod .., ?_⟩
      simp [escapeChar, hshort, hcontrol]
    · exact Or.inr ⟨⟨hshort.1, hshort.2.1⟩, by simp [escapeChar, hshort, hcontrol]⟩

theorem unescape_escapeChar (c : Char) (rest : List Char) :
    unescape (escapeChar c ++ rest) = some (c, rest) := by
  rcases escapeChar_cases c with hshort | ⟨high, hhigh, low, hlow, hvalue, hc⟩ | ⟨hplain, hc⟩
  · simp only [List.mem_cons, List.not_mem_nil, or_false] at hshort
    rcases hshort with rfl | rfl | rfl | rfl | rfl | rfl | rfl <;> rfl
  · rw [hc]
    simp [unescape, digitValue?_hexDigit high hhigh, digitValue?_hexDigit low hlow, hvalue]
  · rw [hc]
    simp [unescape, hplain]

/-- An escaped character does not begin as a string ends. -/
theorem escapeChar_ne_quote (c : Char) (rest rest' : List Char) :
    escapeChar c ++ rest ≠ '"' :: rest' := by
  intro h
  have hread := unescape_escapeChar c rest
  rw [h] at hread
  obtain ⟨rfl, -⟩ := Prod.mk.inj (Option.some.inj hread)
  cases h

theorem escape_inj {cs ds rest rest' : List Char}
    (h : cs.flatMap escapeChar ++ '"' :: rest = ds.flatMap escapeChar ++ '"' :: rest') :
    cs = ds ∧ rest = rest' := by
  induction cs generalizing ds with
  | nil =>
    cases ds with
    | nil => exact ⟨rfl, (List.cons.inj h).2⟩
    | cons d ds =>
      rw [List.flatMap_cons, List.append_assoc] at h
      exact absurd h.symm (escapeChar_ne_quote d _ _)
  | cons c cs ih =>
    rw [List.flatMap_cons, List.append_assoc] at h
    cases ds with
    | nil => exact absurd h (escapeChar_ne_quote c _ _)
    | cons d ds =>
      rw [List.flatMap_cons, List.append_assoc] at h
      have hread := congrArg unescape h
      rw [unescape_escapeChar, unescape_escapeChar] at hread
      obtain ⟨rfl, hlater⟩ := Prod.mk.inj (Option.some.inj hread)
      obtain ⟨rfl, hrest⟩ := ih hlater
      exact ⟨rfl, hrest⟩

theorem determines_quote (s : String) : Determines (fun s => (quote s).toList) s := by
  intro s' rest rest' h
  simp only [quote, String.toList_append, String.toList_ofList, List.append_assoc] at h
  obtain ⟨hs, hrest⟩ := escape_inj (List.cons.inj h).2
  exact ⟨String.toList_inj.mp hs, hrest⟩

theorem determines_compactMember {m : String × Json}
    (h : Determines (fun j => j.compact.toList) m.2) :
    Determines (fun m => (compactMember m).toList) m := by
  intro m' rest rest' heq
  obtain ⟨name, j⟩ := m
  obtain ⟨name', j'⟩ := m'
  simp only [compactMember, String.toList_append, List.append_assoc] at heq
  obtain ⟨rfl, hlater⟩ := determines_quote name name' _ _ heq
  obtain ⟨rfl, hrest⟩ := h j' _ _ (List.cons.inj hlater).2
  exact ⟨rfl, hrest⟩

/-- No data begins as a list ends. -/
theorem compact_ne_close (j : Json) (rest rest' : List Char) :
    j.compact.toList ++ rest ≠ ']' :: rest' := by
  cases j <;> simp [compact, quote]

theorem determines_compact (j : Json) : Determines (fun j => j.compact.toList) j := by
  induction j using Json.induction with
  | string s =>
    intro j' rest rest' h
    cases j' with
    | string s' =>
      obtain ⟨rfl, hrest⟩ := determines_quote s s' _ _ h
      exact ⟨rfl, hrest⟩
    | list _ | record _ => simp [compact, quote] at h
  | list items ih =>
    intro j' rest rest' h
    cases j' with
    | string _ | record _ => simp [compact, quote] at h
    | list items' =>
      simp only [compact, String.toList_append, List.append_assoc, toList_compactItems] at h
      obtain ⟨rfl, hrest⟩ := separated_inj (by decide) compact_ne_close ih (List.cons.inj h).2
      exact ⟨rfl, hrest⟩
  | record members ih =>
    intro j' rest rest' h
    cases j' with
    | string _ | list _ => simp [compact, quote] at h
    | record members' =>
      simp only [compact, String.toList_append, List.append_assoc, toList_compactMembers] at h
      have hopen : ∀ (m : String × Json) rest rest',
          (compactMember m).toList ++ rest ≠ '\x7d' :: rest' := by
        simp [compactMember, quote]
      obtain ⟨rfl, hrest⟩ := separated_inj (by decide) hopen
        (fun m hm => determines_compactMember (ih m hm)) (List.cons.inj h).2
      exact ⟨rfl, hrest⟩

theorem compact_inj {j j' : Json} : j.compact = j'.compact ↔ j = j' := by
  refine ⟨fun h => ?_, congrArg compact⟩
  exact (determines_compact j j' [] [] (by simp only [h])).1

/-! ### Layout -/

/-- Where a character of a text stands: outside of all strings, inside of one, or right behind a
backslash inside of one. -/
inductive Position where
  | outside | inside | escaped
deriving DecidableEq

def Position.after (c : Char) : Position → Position
  | outside => if c = '"' then inside else outside
  | inside => if c = '"' then outside else if c = '\\' then escaped else inside
  | escaped => inside

def condenseFrom (p : Position) : List Char → List Char
  | [] => []
  | c :: cs =>
    if p = .outside ∧ Text.isWhite c then condenseFrom p cs else c :: condenseFrom (p.after c) cs

/-- A text without the white space that stands outside of its strings. -/
def condense (text : String) : String := String.ofList (condenseFrom .outside text.toList)

/-- Outside of strings, `loose` is condensed to `dense` whatever comes behind it. -/
def Condenses (loose dense : List Char) : Prop :=
  ∀ rest, condenseFrom .outside (loose ++ rest) = dense ++ condenseFrom .outside rest

namespace Condenses

theorem nil : Condenses [] [] := fun _ => rfl

theorem append {loose dense loose' dense' : List Char} (h : Condenses loose dense)
    (h' : Condenses loose' dense') : Condenses (loose ++ loose') (dense ++ dense') := by
  intro rest
  rw [List.append_assoc, h, h', List.append_assoc]

theorem mark {c : Char} (h : c ≠ '"' ∧ Text.isWhite c = false) : Condenses [c] [c] := by
  intro rest
  simp [condenseFrom, Position.after, h]

theorem white {cs : List Char} (h : ∀ c ∈ cs, Text.isWhite c = true) : Condenses cs [] := by
  intro rest
  induction cs with
  | nil => rfl
  | cons c cs ih =>
    obtain ⟨hc, hcs⟩ := List.forall_mem_cons.mp h
    simp [condenseFrom, hc, ih hcs]

theorem flatMap {α : Type} {loose dense : α → List Char} {as : List α}
    (h : ∀ a ∈ as, Condenses (loose a) (dense a)) :
    Condenses (as.flatMap loose) (as.flatMap dense) := by
  induction as with
  | nil => exact nil
  | cons a as ih =>
    obtain ⟨ha, has⟩ := List.forall_mem_cons.mp h
    exact ha.append (ih has)

theorem separated {α : Type} {loose dense : α → List Char} {as : List α}
    (h : ∀ a ∈ as, Condenses (loose a) (dense a)) :
    Condenses (separated loose as) (separated dense as) := by
  have hcomma : Condenses [','] [','] := mark (by decide)
  cases as with
  | nil => exact nil
  | cons a as =>
    obtain ⟨ha, has⟩ := List.forall_mem_cons.mp h
    exact ha.append (flatMap fun b hb => hcomma.append (has b hb))

end Condenses

theorem condenses_newLine (depth : Nat) : Condenses (newLine depth).toList [] := by
  refine .white fun c hc => ?_
  simp only [newLine, String.toList_append, String.toList_ofList, List.mem_append] at hc
  rcases hc with hc | hc
  · obtain rfl := List.mem_singleton.mp hc
    rfl
  · rw [List.eq_of_mem_replicate hc]
    rfl

/-- Inside of a string nothing is left out, and an escaped character does not end it. -/
theorem condenseFrom_escapeChar (c : Char) (rest : List Char) :
    condenseFrom .inside (escapeChar c ++ rest) = escapeChar c ++ condenseFrom .inside rest := by
  rcases escapeChar_cases c with hshort | ⟨high, hhigh, low, hlow, -, hc⟩ | ⟨hplain, hc⟩
  · simp only [List.mem_cons, List.not_mem_nil, or_false] at hshort
    rcases hshort with rfl | rfl | rfl | rfl | rfl | rfl | rfl <;> rfl
  · have hdigit : ∀ n < 16, hexDigit n ≠ '"' ∧ hexDigit n ≠ '\\' := by decide
    rw [hc]
    simp [condenseFrom, Position.after, hdigit high hhigh, hdigit low hlow]
  · rw [hc]
    simp [condenseFrom, Position.after, hplain]

theorem condenses_quote (s : String) : Condenses (quote s).toList (quote s).toList := by
  have hinside : ∀ cs rest : List Char,
      condenseFrom .inside (cs.flatMap escapeChar ++ '"' :: rest) =
        cs.flatMap escapeChar ++ '"' :: condenseFrom .outside rest := by
    intro cs rest
    induction cs with
    | nil => rfl
    | cons c cs ih => rw [List.flatMap_cons, List.append_assoc, condenseFrom_escapeChar, ih,
        List.append_assoc]
  intro rest
  simp only [quote, String.toList_append, String.toList_ofList, List.append_assoc]
  exact congrArg ('"' :: ·) (hinside s.toList rest)

/-- What stands between brackets may end with a new line. -/
theorem Condenses.bracketed {first last : Char} (hfirst : first ≠ '"' ∧ Text.isWhite first = false)
    (hlast : last ≠ '"' ∧ Text.isWhite last = false) {loose dense : List Char}
    (h : Condenses loose dense) (depth : Nat) :
    Condenses ([first] ++ loose ++ (newLine depth).toList ++ [last])
      ([first] ++ dense ++ [last]) := by
  have hline := ((mark hfirst).append h).append (condenses_newLine depth)
  rw [List.append_nil] at hline
  exact hline.append (mark hlast)

theorem condenses_pretty (j : Json) (depth : Nat) :
    Condenses (j.pretty depth).toList j.compact.toList := by
  induction j using Json.induction generalizing depth with
  | string s => simpa only [pretty, compact] using condenses_quote s
  | list items ih =>
    rw [pretty, compact]
    split
    · next hempty =>
      obtain rfl := List.isEmpty_iff.mp hempty
      exact Condenses.append (.mark (c := '[') (by decide)) (.mark (c := ']') (by decide))
    · have hitems : Condenses (prettyItems (depth + 1) items).toList
          (compactItems items).toList := by
        rw [toList_prettyItems, toList_compactItems]
        exact .separated fun j hj => (condenses_newLine (depth + 1)).append (ih j hj (depth + 1))
      simp only [String.toList_append]
      exact hitems.bracketed (by decide) (by decide) depth
  | record members ih =>
    rw [pretty, compact]
    split
    · next hempty =>
      obtain rfl := List.isEmpty_iff.mp hempty
      exact Condenses.append (.mark (c := '\x7b') (by decide)) (.mark (c := '\x7d') (by decide))
    · have hmembers : Condenses (prettyMembers (depth + 1) members).toList
          (compactMembers members).toList := by
        rw [toList_prettyMembers, toList_compactMembers]
        refine .separated fun ⟨name, j⟩ hj => ?_
        have hspace : Condenses [' '] [] := .white (List.forall_mem_singleton.mpr rfl)
        have hcolon : Condenses [':', ' '] [':'] := .append (.mark (c := ':') (by decide)) hspace
        have hname := (condenses_newLine (depth + 1)).append (condenses_quote name)
        have hmember := (hname.append hcolon).append (ih (name, j) hj (depth + 1))
        simpa [prettyMember, compactMember] using hmember
      simp only [String.toList_append]
      exact hmembers.bracketed (by decide) (by decide) depth

/-- White space is all that the two layouts differ in. -/
theorem condense_pretty (j : Json) {after : String} (hafter : ∀ c ∈ after.toList, Text.isWhite c) :
    condense (j.pretty 0 ++ after) = j.compact := by
  have htext := condenses_pretty j 0
  have hall := htext.append (.white hafter) []
  rw [condense, String.toList_append]
  simp only [List.append_nil, condenseFrom] at hall
  rw [hall, String.ofList_toList]

/-- Spaces inside of a string are kept, also behind an escaped quotation mark. -/
example : condense ((list [string "a \" b"]).pretty 0) = "[\"a \\\" b\"]" := by decide +kernel

end ChatForms.Json
