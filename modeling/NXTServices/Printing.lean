import NXTServices.Json

/-!
# Printed JSON without its white space: `cJSON_Print` and `stripwhite`

* `stripwhite` : the function of `utils/jl777str.h`;
* `Plain` : the numbers of a node are printed as numbers;
* `stripwhite_printValue` : what is left of a printed node does not depend on its depth;
* `eq_of_flat_append` : a node ends where its text says;
* `flatObject_append_inj` : the text has the names of an object, less their spaces.

`stripwhite` takes spaces out of strings too, so the text does not determine the node.
-/

namespace NXTServices.Json

/-! ## White space -/

def isWhite (c : Char) : Bool := c = ' ' ∨ c = '\n' ∨ c = '\r' ∨ c = '\t'

def stripwhite (buf : Text) : Text := buf.filter fun c => !isWhite c

/-- A string less its spaces: the other white space is printed as an escape. -/
def unspace (str : Text) : Text := str.filter (· ≠ ' ')

/-! ## Characters -/

/-- The three ways that a character is printed. -/
theorem escapeChar_cases (c : Char) :
    (escapeChar c = [c] ∧ c ≠ '"' ∧ c ≠ '\\' ∧ 31 < c.toNat) ∨
      (∃ k, escapeChar c = ['\\', k] ∧ k ≠ 'u' ∧ !isWhite k ∧ unescape k = c) ∨
      (escapeChar c = ['\\', 'u', '0', '0', Nat.digitChar (c.toNat / 16), Nat.digitChar (c.toNat % 16)] ∧
        c.toNat < 32) := by
  generalize hstr : escapeChar c = str
  unfold escapeChar at hstr
  split at hstr
  · next h => exact .inl ⟨hstr.symm, h.2.1, h.2.2, h.1⟩
  · next h =>
    refine .inr ?_
    split at hstr
    · next hc => exact .inl ⟨'\\', hstr.symm, by decide, by decide, hc.symm⟩
    split at hstr
    · next hc => exact .inl ⟨'"', hstr.symm, by decide, by decide, hc.symm⟩
    split at hstr
    · next hc => exact .inl ⟨'b', hstr.symm, by decide, by decide, Char.toNat_inj.mp hc.symm⟩
    split at hstr
    · next hc => exact .inl ⟨'f', hstr.symm, by decide, by decide, Char.toNat_inj.mp hc.symm⟩
    split at hstr
    · next hc => exact .inl ⟨'n', hstr.symm, by decide, by decide, hc.symm⟩
    split at hstr
    · next hc => exact .inl ⟨'r', hstr.symm, by decide, by decide, hc.symm⟩
    split at hstr
    · next hc => exact .inl ⟨'t', hstr.symm, by decide, by decide, hc.symm⟩
    · next hback hquote _ _ _ _ _ =>
      refine .inr ⟨hstr.symm, ?_⟩
      by_contra hlt
      exact h ⟨by omega, hquote, hback⟩

theorem digitChar_inj : ∀ a < 16, ∀ b < 16, Nat.digitChar a = Nat.digitChar b → a = b := by decide

/-- **Printed characters are a prefix code.** -/
theorem escapeChar_append_inj {c d : Char} {x y : Text} (h : escapeChar c ++ x = escapeChar d ++ y) :
    c = d ∧ x = y := by
  rcases escapeChar_cases c with ⟨hc, -, hback, -⟩ | ⟨k, hc, hu, -, hk⟩ | ⟨hc, hlt⟩ <;>
    rcases escapeChar_cases d with ⟨hd, -, hback', -⟩ | ⟨k', hd, hu', -, hk'⟩ | ⟨hd, hlt'⟩ <;>
    rw [hc, hd] at h <;> simp only [List.cons_append, List.nil_append, List.cons.injEq, true_and] at h
  · exact h
  · exact absurd h.1 hback
  · exact absurd h.1 hback
  · exact absurd h.1.symm hback'
  · exact ⟨hk.symm.trans (h.1 ▸ hk'), h.2⟩
  · exact absurd h.1 hu
  · exact absurd h.1.symm hback'
  · exact absurd h.1.symm hu'
  · obtain ⟨hhigh, hlow, hrest⟩ := h
    have h16 := digitChar_inj _ (by omega) _ (by omega) hhigh
    have hmod := digitChar_inj _ (Nat.mod_lt _ (by omega)) _ (Nat.mod_lt _ (by omega)) hlow
    refine ⟨Char.toNat_inj.mp ?_, hrest⟩
    omega

theorem escapeChar_head_ne (c : Char) (x y : Text) : escapeChar c ++ x ≠ '"' :: y := by
  intro h
  rcases escapeChar_cases c with ⟨hc, hquote, -⟩ | ⟨k, hc, -⟩ | ⟨hc, -⟩ <;>
    rw [hc] at h <;> simp only [List.cons_append, List.nil_append, List.cons.injEq] at h
  · exact hquote h.1
  · exact absurd h.1 (by decide)
  · exact absurd h.1 (by decide)

/-- A string ends at its closing quote. -/
theorem flatMap_escapeChar_append_inj {s t x y : Text}
    (h : s.flatMap escapeChar ++ '"' :: x = t.flatMap escapeChar ++ '"' :: y) : s = t ∧ x = y := by
  induction s generalizing t with
  | nil =>
    cases t with
    | nil => exact ⟨rfl, by simpa using h⟩
    | cons d t =>
      rw [List.flatMap_cons, List.append_assoc] at h
      exact absurd h.symm (escapeChar_head_ne d _ _)
  | cons c s ih =>
    cases t with
    | nil =>
      rw [List.flatMap_cons, List.append_assoc] at h
      exact absurd h (escapeChar_head_ne c _ _)
    | cons d t =>
      rw [List.flatMap_cons, List.flatMap_cons, List.append_assoc, List.append_assoc] at h
      obtain ⟨rfl, hrest⟩ := escapeChar_append_inj h
      obtain ⟨rfl, hxy⟩ := ih hrest
      exact ⟨rfl, hxy⟩

theorem stripwhite_append (s t : Text) : stripwhite (s ++ t) = stripwhite s ++ stripwhite t :=
  List.filter_append s t

theorem stripwhite_escapeChar (c : Char) : stripwhite (escapeChar c) = if c ≠ ' ' then escapeChar c else [] := by
  by_cases hspace : c = ' '
  · subst hspace
    rfl
  · rw [if_pos hspace]
    apply List.filter_eq_self.mpr
    rcases escapeChar_cases c with ⟨hc, -, -, hlt⟩ | ⟨k, hc, -, hk, -⟩ | ⟨hc, hlt⟩ <;> rw [hc]
    · intro d hd
      obtain rfl := List.mem_singleton.mp hd
      have hn : d ≠ '\n' := by rintro rfl; revert hlt; decide
      have hr : d ≠ '\r' := by rintro rfl; revert hlt; decide
      have ht : d ≠ '\t' := by rintro rfl; revert hlt; decide
      simp [isWhite, hspace, hn, hr, ht]
    · simpa using ⟨by decide, by simpa using hk⟩
    · have hdigit : ∀ n < 16, isWhite (Nat.digitChar n) = Bool.false := by decide
      have hhigh := hdigit (c.toNat / 16) (by omega)
      have hlow := hdigit (c.toNat % 16) (Nat.mod_lt _ (by omega))
      simp [hhigh, hlow, show isWhite '\\' = Bool.false by decide, show isWhite 'u' = Bool.false by decide,
        show isWhite '0' = Bool.false by decide]

theorem stripwhite_flatMap_escapeChar (str : Text) :
    stripwhite (str.flatMap escapeChar) = (unspace str).flatMap escapeChar := by
  induction str with
  | nil => rfl
  | cons c str ih =>
    rw [List.flatMap_cons, stripwhite_append, stripwhite_escapeChar, ih]
    by_cases hspace : c = ' '
    · simp [unspace, hspace]
    · simp [unspace, hspace]

theorem stripwhite_printString (str : Text) : stripwhite (printString str) = printString (unspace str) := by
  unfold printString
  rw [stripwhite_append, show stripwhite ['"'] = ['"'] by decide]
  show '"' :: stripwhite (str.flatMap escapeChar) ++ ['"'] = _
  rw [stripwhite_flatMap_escapeChar]

theorem printString_append_inj {s t x y : Text} (h : printString s ++ x = printString t ++ y) : s = t ∧ x = y := by
  unfold printString at h
  simp only [List.cons_append, List.append_assoc, List.cons.injEq, true_and, List.nil_append] at h
  exact flatMap_escapeChar_append_inj h

/-! ## Nodes -/

/-- The characters of the numbers that `sprintf` writes. -/
def isNumberChar (c : Char) : Bool := c ∈ "0123456789+-.aefin".toList

mutual

/-- The numbers in a node are printed with characters of numbers. -/
def Plain : Json → Prop
  | number printed => printed ≠ [] ∧ ∀ c ∈ printed, isNumberChar c
  | array child => PlainArray child
  | object child => PlainObject child
  | _ => True

def PlainArray : List Json → Prop
  | [] => True
  | child :: children => Plain child ∧ PlainArray children

def PlainObject : List (Text × Json) → Prop
  | [] => True
  | (_, child) :: children => Plain child ∧ PlainObject children

end

mutual

/-- A printed node without white space. -/
def flat : Json → Text
  | null => "null".toList
  | false => "false".toList
  | true => "true".toList
  | number printed => stripwhite printed
  | string str => printString (unspace str)
  | array child => '[' :: flatArray child ++ [']']
  | object child => '\x7b' :: flatObject child ++ ['\x7d']

def flatArray : List Json → Text
  | [] => []
  | [child] => flat child
  | child :: children => flat child ++ ',' :: flatArray children

def flatObject : List (Text × Json) → Text
  | [] => []
  | [(name, child)] => printString (unspace name) ++ ':' :: flat child
  | (name, child) :: children => printString (unspace name) ++ ':' :: flat child ++ ',' :: flatObject children

end

theorem stripwhite_tabs (n : Nat) : stripwhite (tabs n) = [] := by
  apply List.filter_eq_nil_iff.mpr
  intro c hc
  rw [List.eq_of_mem_replicate hc]
  decide

mutual

/-- **The depth leaves no trace.** -/
theorem stripwhite_printValue (item : Json) (depth : Nat) : stripwhite (printValue item depth) = flat item := by
  match item with
  | null => rfl
  | false => rfl
  | true => rfl
  | number printed => rfl
  | string str => exact stripwhite_printString str
  | array child =>
    show stripwhite (['['] ++ printArray child (depth + 1) ++ [']']) = _
    rw [stripwhite_append, stripwhite_append, stripwhite_printArray child]
    rfl
  | object [] =>
    show stripwhite (['\x7b', '\n'] ++ tabs (depth - 1) ++ ['\x7d']) = _
    rw [stripwhite_append, stripwhite_append, stripwhite_tabs]
    rfl
  | object (m :: child) =>
    show stripwhite (['\x7b', '\n'] ++ printObject (m :: child) (depth + 1) ++ tabs depth ++ ['\x7d']) = _
    rw [stripwhite_append, stripwhite_append, stripwhite_append, stripwhite_printObject (m :: child), stripwhite_tabs,
      List.append_nil]
    rfl

theorem stripwhite_printArray (child : List Json) (depth : Nat) :
    stripwhite (printArray child depth) = flatArray child := by
  match child with
  | [] => rfl
  | [child] => exact stripwhite_printValue child depth
  | child :: child' :: children =>
    show stripwhite (printValue child depth ++ [',', ' '] ++ printArray (child' :: children) depth) = _
    rw [stripwhite_append, stripwhite_append, stripwhite_printValue child, stripwhite_printArray (child' :: children),
      List.append_assoc]
    rfl

theorem stripwhite_printObject (child : List (Text × Json)) (depth : Nat) :
    stripwhite (printObject child depth) = flatObject child := by
  match child with
  | [] => rfl
  | [(name, child)] =>
    show stripwhite (tabs depth ++ printString name ++ [':', '\t'] ++ printValue child depth ++ ['\n']) = _
    simp only [stripwhite_append, stripwhite_tabs, stripwhite_printString, stripwhite_printValue child]
    rw [show stripwhite [':', '\t'] = [':'] by decide, show stripwhite ['\n'] = [] by decide]
    show _ = printString (unspace name) ++ ':' :: flat child
    simp
  | (name, child) :: m :: children =>
    show stripwhite (tabs depth ++ printString name ++ [':', '\t'] ++ printValue child depth ++ [',', '\n'] ++
      printObject (m :: children) depth) = _
    simp only [stripwhite_append, stripwhite_tabs, stripwhite_printString, stripwhite_printValue child,
      stripwhite_printObject (m :: children)]
    rw [show stripwhite [':', '\t'] = [':'] by decide, show stripwhite [',', '\n'] = [','] by decide]
    show _ = printString (unspace name) ++ ':' :: flat child ++ ',' :: flatObject (m :: children)
    simp

end

theorem stripwhite_cJSONPrint (item : Json) : stripwhite (cJSONPrint item) = flat item := stripwhite_printValue item 0

/-! ## Where a node ends -/

/-- A node is followed by the end of the text, a comma or a closing bracket. -/
def Ends (rest : Text) : Prop := ∀ c cs, rest = c :: cs → c = ',' ∨ c = ']' ∨ c = '\x7d'

theorem ends_comma (cs : Text) : Ends (',' :: cs) := by
  rintro c cs' h
  exact .inl (List.cons.inj h).1.symm

theorem ends_bracket (cs : Text) : Ends (']' :: cs) := by
  rintro c cs' h
  exact .inr (.inl (List.cons.inj h).1.symm)

theorem ends_brace (cs : Text) : Ends ('\x7d' :: cs) := by
  rintro c cs' h
  exact .inr (.inr (List.cons.inj h).1.symm)

/-- The nodes without quotes and brackets are words. -/
def isWordChar (c : Char) : Bool := isNumberChar c ∨ c ∈ "nulltruefalse".toList

theorem stripwhite_number {printed : Text} (h : ∀ c ∈ printed, isNumberChar c) : stripwhite printed = printed := by
  apply List.filter_eq_self.mpr
  intro c hc
  have hdistinct : ∀ d ∈ "0123456789+-.aefin".toList, !isWhite d := List.all_eq_true.mp (by decide)
  exact hdistinct c (by simpa [isNumberChar] using h c hc)

/-- A node is a word, or starts with the quote or the bracket of its kind. -/
theorem flat_cases {item : Json} (h : Plain item) :
    (flat item ≠ [] ∧ ∀ c ∈ flat item, isWordChar c) ∨
      (∃ str, item = string str) ∨ (∃ child, item = array child) ∨ ∃ child, item = object child := by
  match item with
  | null => exact .inl ⟨by decide, List.all_eq_true.mp (by decide)⟩
  | false => exact .inl ⟨by decide, List.all_eq_true.mp (by decide)⟩
  | true => exact .inl ⟨by decide, List.all_eq_true.mp (by decide)⟩
  | number printed =>
    obtain ⟨hne, hall⟩ := h
    have hflat : flat (number printed) = printed := stripwhite_number hall
    rw [hflat]
    refine .inl ⟨hne, fun c hc => ?_⟩
    simp [isWordChar, hall c hc]
  | string str => exact .inr (.inl ⟨str, rfl⟩)
  | array child => exact .inr (.inr (.inl ⟨child, rfl⟩))
  | object child => exact .inr (.inr (.inr ⟨child, rfl⟩))

theorem flat_append_cons {item : Json} {c : Char} {x cs : Text} (h : Plain item) (hflat : flat item ++ x = c :: cs) :
    (isWordChar c ∧ ∀ d ∈ flat item, isWordChar d) ∨ (c = '"' ∧ ∃ str, item = string str) ∨
      (c = '[' ∧ ∃ child, item = array child) ∨ (c = '\x7b' ∧ ∃ child, item = object child) := by
  rcases flat_cases h with ⟨hne, hall⟩ | ⟨str, rfl⟩ | ⟨child, rfl⟩ | ⟨child, rfl⟩
  · obtain ⟨d, ds, hd⟩ := List.exists_cons_of_ne_nil hne
    rw [hd] at hflat hall
    obtain ⟨rfl, -⟩ := List.cons.inj hflat
    rw [hd]
    exact .inl ⟨hall d List.mem_cons_self, hall⟩
  · exact .inr (.inl ⟨(List.cons.inj hflat).1.symm, str, rfl⟩)
  · exact .inr (.inr (.inl ⟨(List.cons.inj hflat).1.symm, child, rfl⟩))
  · exact .inr (.inr (.inr ⟨(List.cons.inj hflat).1.symm, child, rfl⟩))

theorem dropWhile_append_ends {p : Char → Bool} (hp : ¬ p ',' ∧ ¬ p ']' ∧ ¬ p '\x7d') {word rest : Text}
    (hword : ∀ c ∈ word, p c) (hrest : Ends rest) : (word ++ rest).dropWhile p = rest := by
  rw [List.dropWhile_append_of_pos hword]
  cases rest with
  | nil => rfl
  | cons c cs =>
    apply List.dropWhile_cons_of_neg
    rcases hrest c cs rfl with rfl | rfl | rfl
    · exact hp.1
    · exact hp.2.1
    · exact hp.2.2

theorem dropWhile_word {word rest : Text} (hword : ∀ c ∈ word, isWordChar c) (hrest : Ends rest) :
    (word ++ rest).dropWhile isWordChar = rest := dropWhile_append_ends (by decide) hword hrest

/-- What follows a list of nodes that has begun. -/
def arrayRest (children : List Json) (x : Text) : Text :=
  match children with
  | [] => ']' :: x
  | child :: children => ',' :: flatArray (child :: children) ++ ']' :: x

def objectRest (children : List (Text × Json)) (x : Text) : Text :=
  match children with
  | [] => '\x7d' :: x
  | child :: children => ',' :: flatObject (child :: children) ++ '\x7d' :: x

theorem flatArray_cons_append (child : Json) (children : List Json) (x : Text) :
    flatArray (child :: children) ++ ']' :: x = flat child ++ arrayRest children x := by
  cases children with
  | nil => rfl
  | cons child' children => exact List.append_assoc (flat child) _ _

theorem flatObject_cons_append (name : Text) (child : Json) (children : List (Text × Json)) (x : Text) :
    flatObject ((name, child) :: children) ++ '\x7d' :: x =
      printString (unspace name) ++ ':' :: (flat child ++ objectRest children x) := by
  cases children with
  | nil => exact List.append_assoc (printString (unspace name)) (':' :: flat child) _
  | cons m children =>
    show printString (unspace name) ++ ':' :: flat child ++ ',' :: flatObject (m :: children) ++ '\x7d' :: x =
      printString (unspace name) ++ ':' :: (flat child ++ (',' :: flatObject (m :: children) ++ '\x7d' :: x))
    simp only [List.append_assoc, List.cons_append]

theorem flat_array_append (child : List Json) (x : Text) :
    flat (array child) ++ x = '[' :: (flatArray child ++ ']' :: x) :=
  congrArg ('[' :: ·) (List.append_assoc (flatArray child) [']'] x)

theorem flat_object_append (child : List (Text × Json)) (x : Text) :
    flat (object child) ++ x = '\x7b' :: (flatObject child ++ '\x7d' :: x) :=
  congrArg ('\x7b' :: ·) (List.append_assoc (flatObject child) ['\x7d'] x)

theorem ends_arrayRest (children : List Json) (x : Text) : Ends (arrayRest children x) := by
  cases children with
  | nil => exact ends_bracket x
  | cons child children => exact ends_comma _

theorem ends_objectRest (children : List (Text × Json)) (x : Text) : Ends (objectRest children x) := by
  cases children with
  | nil => exact ends_brace x
  | cons m children => exact ends_comma _

mutual

/-- **A node ends where its text says.** -/
theorem eq_of_flat_append (v w : Json) {x y : Text} (hv : Plain v) (hw : Plain w) (hx : Ends x) (hy : Ends y)
    (h : flat v ++ x = flat w ++ y) : x = y := by
  have hword (hall : ∀ c ∈ flat v, isWordChar c) (hne : flat v ≠ []) : x = y := by
    obtain ⟨c, cs, hc⟩ := List.exists_cons_of_ne_nil hne
    have hcword := hall c (hc ▸ List.mem_cons_self)
    rw [hc] at h
    rcases flat_append_cons hw h.symm with ⟨-, hall'⟩ | ⟨rfl, -⟩ | ⟨rfl, -⟩ | ⟨rfl, -⟩
    · rw [← hc] at h
      rw [← dropWhile_word hall hx, ← dropWhile_word hall' hy, h]
    · exact absurd hcword (by decide)
    · exact absurd hcword (by decide)
    · exact absurd hcword (by decide)
  match v with
  | null => exact hword (List.all_eq_true.mp (by decide)) (by decide)
  | false => exact hword (List.all_eq_true.mp (by decide)) (by decide)
  | true => exact hword (List.all_eq_true.mp (by decide)) (by decide)
  | number printed =>
    rcases flat_cases hv with ⟨hne, hall⟩ | ⟨_, h⟩ | ⟨_, h⟩ | ⟨_, h⟩
    · exact hword hall hne
    · cases h
    · cases h
    · cases h
  | string str =>
    rcases flat_append_cons hw h.symm with ⟨hc, -⟩ | ⟨-, str', rfl⟩ | ⟨hc, -⟩ | ⟨hc, -⟩
    · exact absurd hc (by decide)
    · exact (printString_append_inj h).2
    · exact absurd hc (by decide)
    · exact absurd hc (by decide)
  | array child =>
    rcases flat_append_cons hw h.symm with ⟨hc, -⟩ | ⟨hc, -⟩ | ⟨-, child', rfl⟩ | ⟨hc, -⟩
    · exact absurd hc (by decide)
    · exact absurd hc (by decide)
    · rw [flat_array_append, flat_array_append] at h
      exact eq_of_flatArray_append child child' hv hw (List.cons.inj h).2
    · exact absurd hc (by decide)
  | object child =>
    rcases flat_append_cons hw h.symm with ⟨hc, -⟩ | ⟨hc, -⟩ | ⟨hc, -⟩ | ⟨-, child', rfl⟩
    · exact absurd hc (by decide)
    · exact absurd hc (by decide)
    · exact absurd hc (by decide)
    · rw [flat_object_append, flat_object_append] at h
      exact (flatObject_append_inj child child' hv hw (List.cons.inj h).2).2

theorem eq_of_flatArray_append (vs ws : List Json) {x y : Text} (hv : PlainArray vs) (hw : PlainArray ws)
    (h : flatArray vs ++ ']' :: x = flatArray ws ++ ']' :: y) : x = y := by
  match vs, ws with
  | [], [] => exact (List.cons.inj h).2
  | [], w :: ws =>
    rw [flatArray_cons_append] at h
    rcases flat_append_cons hw.1 h.symm with ⟨hc, -⟩ | ⟨hc, -⟩ | ⟨hc, -⟩ | ⟨hc, -⟩ <;> exact absurd hc (by decide)
  | v :: vs, [] =>
    rw [flatArray_cons_append] at h
    rcases flat_append_cons hv.1 h with ⟨hc, -⟩ | ⟨hc, -⟩ | ⟨hc, -⟩ | ⟨hc, -⟩ <;> exact absurd hc (by decide)
  | v :: vs, w :: ws =>
    rw [flatArray_cons_append, flatArray_cons_append] at h
    have hrest := eq_of_flat_append v w hv.1 hw.1 (ends_arrayRest vs x) (ends_arrayRest ws y) h
    match vs, ws with
    | [], [] => exact (List.cons.inj hrest).2
    | [], _ :: _ => exact absurd (List.cons.inj hrest).1 (by decide)
    | _ :: _, [] => exact absurd (List.cons.inj hrest).1 (by decide)
    | v' :: vs, w' :: ws => exact eq_of_flatArray_append (v' :: vs) (w' :: ws) hv.2 hw.2 (List.cons.inj hrest).2

/-- The members of an object keep their names, less the spaces. -/
theorem flatObject_append_inj (ms ns : List (Text × Json)) {x y : Text} (hm : PlainObject ms) (hn : PlainObject ns)
    (h : flatObject ms ++ '\x7d' :: x = flatObject ns ++ '\x7d' :: y) :
    (ms.map fun m => unspace m.1) = (ns.map fun n => unspace n.1) ∧ x = y := by
  match ms, ns with
  | [], [] => exact ⟨rfl, (List.cons.inj h).2⟩
  | [], (name, w) :: ns =>
    rw [flatObject_cons_append] at h
    exact absurd (List.cons.inj h).1 (by decide)
  | (name, v) :: ms, [] =>
    rw [flatObject_cons_append] at h
    exact absurd (List.cons.inj h).1 (by decide)
  | (name, v) :: ms, (name', w) :: ns =>
    rw [flatObject_cons_append, flatObject_cons_append] at h
    obtain ⟨hname, h⟩ := printString_append_inj h
    have hrest := eq_of_flat_append v w hm.1 hn.1 (ends_objectRest ms x) (ends_objectRest ns y) (List.cons.inj h).2
    match ms, ns with
    | [], [] => exact ⟨by simp [hname], (List.cons.inj hrest).2⟩
    | [], _ :: _ => exact absurd (List.cons.inj hrest).1 (by decide)
    | _ :: _, [] => exact absurd (List.cons.inj hrest).1 (by decide)
    | m' :: ms, n' :: ns =>
      obtain ⟨hnames, hxy⟩ := flatObject_append_inj (m' :: ms) (n' :: ns) hm.2 hn.2 (List.cons.inj hrest).2
      exact ⟨List.cons_eq_cons.mpr ⟨hname, hnames⟩, hxy⟩

end

/-! ## Copied nodes -/

theorem flat_ne_nil {item : Json} (h : Plain item) : flat item ≠ [] := by
  rcases flat_cases h with ⟨hne, -⟩ | ⟨str, rfl⟩ | ⟨child, rfl⟩ | ⟨child, rfl⟩
  · exact hne
  · exact List.cons_ne_nil _ _
  · exact List.cons_ne_nil _ _
  · exact List.cons_ne_nil _ _

theorem copyCJSON_string (str : Text) : copyCJSON (some (string str)) = str.flatMap escapeChar := by
  show stripquotes ('"' :: (str.flatMap escapeChar ++ ['"'])) = _
  unfold stripquotes
  simp

theorem stripquotes_eq_nil {str : Text} (h : stripquotes str = []) : str = [] ∨ str = ['"', '"'] := by
  unfold stripquotes at h
  split at h
  · next cs =>
    split at h
    · next hlast =>
      have hcs : cs = cs.dropLast ++ ['"'] := (List.dropLast_append_getLast? _ hlast).symm
      rw [h] at hcs
      exact .inr (by rw [hcs]; rfl)
    · cases h
  · exact .inl h

/-- **Only the empty string** is copied as an empty text. -/
theorem copyCJSON_eq_nil {item : Json} (h : Plain item) (hcopy : copyCJSON (some item) = []) : item = string [] := by
  rcases stripquotes_eq_nil hcopy with hprint | hprint
  · have hflat : flat item = [] := by
      rw [← stripwhite_cJSONPrint, hprint]
      rfl
    exact absurd hflat (flat_ne_nil h)
  · have hflat : flat item ++ [] = '"' :: ['"'] := by
      rw [List.append_nil, ← stripwhite_cJSONPrint, hprint]
      decide
    rcases flat_append_cons h hflat with ⟨hc, -⟩ | ⟨-, str, rfl⟩ | ⟨hc, -⟩ | ⟨hc, -⟩
    · exact absurd hc (by decide)
    · have hempty : printString str ++ [] = printString [] ++ [] := by
        rw [List.append_nil]
        exact hprint
      rw [(printString_append_inj hempty).1]
    · exact absurd hc (by decide)
    · exact absurd hc (by decide)

/-! ## Parsed nodes -/

section
variable {render : Text → Text}

/-- What the parsers give is plain. -/
structure ParsesPlain (render : Text → Text) (fuel : Nat) : Prop where
  value : ∀ {s v rest}, parseValue render fuel s = some (v, rest) → Plain v
  array : ∀ {s vs rest}, parseArray render fuel s = some (vs, rest) → PlainArray vs
  object : ∀ {s vs rest}, parseObject render fuel s = some (vs, rest) → PlainObject vs

theorem ParsesPlain.value_succ {fuel : Nat} (hrender : ∀ text, Plain (number (render text)))
    (ih : ParsesPlain render fuel) {s : Text} {v : Json} {rest : Text}
    (h : parseValue render (fuel + 1) s = some (v, rest)) : Plain v := by
  unfold parseValue at h
  split at h
  · cases h; trivial
  · cases h; trivial
  · cases h; trivial
  · cases h; trivial
  · split at h
    · cases h; trivial
    · obtain ⟨⟨child, rest'⟩, hparse, heq⟩ := Option.map_eq_some_iff.mp h
      cases heq
      exact ih.array hparse
  · split at h
    · cases h; trivial
    · obtain ⟨⟨child, rest'⟩, hparse, heq⟩ := Option.map_eq_some_iff.mp h
      cases heq
      exact ih.object hparse
  · split at h
    · cases h
      exact hrender _
    · cases h
  · cases h

theorem ParsesPlain.array_succ {fuel : Nat} (ih : ParsesPlain render fuel) {s : Text} {vs : List Json} {rest : Text}
    (h : parseArray render (fuel + 1) s = some (vs, rest)) : PlainArray vs := by
  unfold parseArray at h
  split at h
  · cases h
  · next child r hvalue =>
    split at h
    · obtain ⟨⟨vs', rest'⟩, hparse, heq⟩ := Option.map_eq_some_iff.mp h
      cases heq
      exact ⟨ih.value hvalue, ih.array hparse⟩
    · cases h
      exact ⟨ih.value hvalue, trivial⟩
    · cases h

theorem ParsesPlain.object_succ {fuel : Nat} (ih : ParsesPlain render fuel) {s : Text} {vs : List (Text × Json)}
    {rest : Text} (h : parseObject render (fuel + 1) s = some (vs, rest)) : PlainObject vs := by
  unfold parseObject at h
  split at h
  · cases h
  · split at h
    · split at h
      · cases h
      · next child r' hvalue =>
        split at h
        · obtain ⟨⟨vs', rest'⟩, hparse, heq⟩ := Option.map_eq_some_iff.mp h
          cases heq
          exact ⟨ih.value hvalue, ih.object hparse⟩
        · cases h
          exact ⟨ih.value hvalue, trivial⟩
        · cases h
    · cases h

/-- **A parsed node is plain**, when numbers are printed as numbers. -/
theorem plain_cJSONParse (hrender : ∀ text, Plain (number (render text))) {value : Text} {item : Json}
    (h : cJSONParse render value = some item) : Plain item := by
  have hplain (fuel : Nat) : ParsesPlain render fuel := by
    induction fuel with
    | zero => constructor <;> simp [parseValue, parseArray, parseObject]
    | succ fuel ih => exact ⟨ih.value_succ hrender, ih.array_succ, ih.object_succ⟩
  obtain ⟨⟨v, rest⟩, hparse, rfl⟩ := Option.map_eq_some_iff.mp h
  exact (hplain _).value hparse

end

end NXTServices.Json
