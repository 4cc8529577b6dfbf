import NXTServices.Grammar

/-!
# JSON texts that a program puts together itself

* `Spells`, `spells_iff` : the text stands for the node, whatever stands behind it;
* `spells_string`, `spells_number`, `spells_array`, `spells_object` : the texts of strings, numbers, arrays and objects;
* `cJSONParse_spells` : what is parsed of such a text.

The strings may hold spaces, other than those of `Compact`, and nothing is said of how a node is printed.
-/

namespace NXTServices.Json

/-- In the grammar, with anything behind it that is not part of a number. -/
def Spells (render : Text → Text) (text : Text) (item : Json) : Prop :=
  ∀ rest, NumberEnds rest → Value render (text ++ rest) item rest

def quoted (str : Text) : Text := '"' :: (str ++ ['"'])

/-- Texts with commas between them. -/
def elements : List Text → Text
  | [] => []
  | [text] => text
  | text :: text' :: texts => text ++ ',' :: elements (text' :: texts)

/-- A member of an object. -/
def memberText (name text : Text) : Text := quoted name ++ ':' :: text

theorem numberEnds_nil : NumberEnds [] := fun _ _ h => by cases h

theorem numberEnds_cons {c : Char} (hc : ¬ isDigit c ∧ c ≠ '.' ∧ c ≠ 'e' ∧ c ≠ 'E') (cs : Text) :
    NumberEnds (c :: cs) := by
  intro d ds h
  rwa [← (List.cons.inj h).1]

section
variable {render : Text → Text}

/-- The texts of the grammar, each by itself. -/
theorem spells_iff {text : Text} {item : Json} : Spells render text item ↔ Value render text item [] := by
  constructor
  · intro h
    simpa only [List.append_nil] using h [] numberEnds_nil
  · intro h rest hrest
    exact h.append (.inr hrest)

/-! ## Strings and numbers -/

theorem chars_unescaped {str : Text} (h : Unescaped str) (rest : Text) : Chars (str ++ '"' :: rest) str rest := by
  induction str with
  | nil => exact .close rest
  | cons c str ih =>
    obtain ⟨hc, hstr⟩ := List.forall_mem_cons.mp h
    exact .plain hc (ih hstr)

theorem spells_string {str : Text} (h : Unescaped str) : Spells render (quoted str) (string str) := by
  intro rest _
  show Value render ('"' :: (str ++ ['"'] ++ rest)) (string str) rest
  rw [List.append_assoc]
  exact .string (chars_unescaped h rest)

theorem spells_number {printed : Text} (h : NumberText printed) : Spells render printed (number (render printed)) :=
  fun _ hrest => .number h hrest

theorem spells_null : Spells render "null".toList null := fun rest _ => .null rest

/-! ## Arrays and objects -/

theorem elements_cons_append (text text' : Text) (texts : List Text) (rest : Text) :
    elements (text :: text' :: texts) ++ rest = text ++ ',' :: (elements (text' :: texts) ++ rest) := by
  rw [elements, List.append_assoc, List.cons_append]

theorem value_elements {children : List (Text × Json)} (hne : children ≠ [])
    (h : ∀ m ∈ children, Spells render m.1 m.2) (rest : Text) :
    Elements render (elements (children.map Prod.fst) ++ ']' :: rest) (children.map Prod.snd) rest := by
  induction children with
  | nil => exact absurd rfl hne
  | cons m children ih =>
    obtain ⟨hm, hchildren⟩ := List.forall_mem_cons.mp h
    cases children with
    | nil => exact .last (.nil _) (hm _ (numberEnds_cons (by decide) rest)) (.nil _)
    | cons m' children =>
      have hnext := ih (List.cons_ne_nil m' children) hchildren
      rw [List.map_cons, List.map_cons, elements_cons_append]
      exact .cons (.nil _) (hm _ (numberEnds_cons (by decide) _)) (.nil _) hnext

theorem memberText_append (name text rest : Text) :
    memberText name text ++ rest = '"' :: (name ++ '"' :: ':' :: (text ++ rest)) := by
  rw [memberText, quoted, List.append_assoc, List.cons_append, List.cons_append, List.append_assoc,
    List.singleton_append]

theorem member_memberText {name text : Text} {item : Json} (hname : Unescaped name) (hitem : Spells render text item)
    {rest : Text} (hrest : NumberEnds rest) : Member render (memberText name text ++ rest) (name, item) rest := by
  rw [memberText_append]
  exact .pair (.nil _) (chars_unescaped hname _) (.nil _) (.nil _) (hitem rest hrest)

theorem members_elements {children : List (Text × Text × Json)} (hne : children ≠ [])
    (h : ∀ m ∈ children, Unescaped m.1 ∧ Spells render m.2.1 m.2.2) (rest : Text) :
    Members render (elements (children.map fun m => memberText m.1 m.2.1) ++ '\x7d' :: rest)
      (children.map fun m => (m.1, m.2.2)) rest := by
  induction children with
  | nil => exact absurd rfl hne
  | cons m children ih =>
    obtain ⟨⟨hname, hm⟩, hchildren⟩ := List.forall_mem_cons.mp h
    cases children with
    | nil => exact .last (member_memberText hname hm (numberEnds_cons (by decide) rest)) (.nil _)
    | cons m' children =>
      have hnext := ih (List.cons_ne_nil m' children) hchildren
      rw [List.map_cons, List.map_cons, elements_cons_append]
      exact .cons (member_memberText hname hm (numberEnds_cons (by decide) _)) (.nil _) hnext

theorem spells_array {children : List (Text × Json)} (hne : children ≠ []) (h : ∀ m ∈ children, Spells render m.1 m.2) :
    Spells render ('[' :: (elements (children.map Prod.fst) ++ [']'])) (array (children.map Prod.snd)) := by
  intro rest _
  rw [List.cons_append, List.append_assoc]
  exact .array (value_elements hne h rest)

theorem spells_nil : Spells render ['[', ']'] (array []) := fun rest _ => .emptyArray (.nil (']' :: rest))

theorem spells_object {children : List (Text × Text × Json)} (hne : children ≠ [])
    (h : ∀ m ∈ children, Unescaped m.1 ∧ Spells render m.2.1 m.2.2) :
    Spells render ('\x7b' :: (elements (children.map fun m => memberText m.1 m.2.1) ++ ['\x7d']))
      (object (children.map fun m => (m.1, m.2.2))) := by
  intro rest _
  rw [List.cons_append, List.append_assoc]
  exact .object (members_elements hne h rest)

/-! ## Whole texts -/

theorem Spells.denotes {text behind : Text} {item : Json} (h : Spells render text item) (hbehind : Gap behind [])
    (hends : NumberEnds behind) : Denotes render (text ++ behind) item :=
  ⟨text ++ behind, behind, .nil _, h behind hends, hbehind⟩

/-- **A text that spells a node is parsed as this node.** -/
theorem cJSONParse_spells {text : Text} {item : Json} (h : Spells render text item) :
    cJSONParse render text = some item := by
  have hdenotes := h.denotes (.nil []) numberEnds_nil
  rw [List.append_nil] at hdenotes
  exact cJSONParse_denotes hdenotes

end

end NXTServices.Json
