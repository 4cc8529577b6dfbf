import NXTServices.Reading
import NXTServices.Torrent.Listing

/-!
# A printed node is read back without its white space

* `atol_decimal`, `skipNumber_decimal` : the `"%d"` of a number, as `atol` and the parser read it;
* `Numeral`, `Bare`, `Compact` : the numbers, the strings and the nodes that `stripwhite` leaves as they are;
* `cJSONParse_flat` : such a node is read back;
* `flat_clear` : its text has no backslash and no control character.
-/

namespace NXTServices.Json
open Torrent (decimal)

/-! ## Decimal numbers -/

theorem toNat_of_isDigit {c : Char} (h : isDigit c) : 48 ≤ c.toNat ∧ c.toNat ≤ 57 := by
  simp only [isDigit, Bool.and_eq_true, decide_eq_true_eq] at h
  exact ⟨UInt32.le_iff_toNat_le.mp h.1, UInt32.le_iff_toNat_le.mp h.2⟩

theorem digit_induction {p : Char → Prop} (h : ∀ n < 58, 48 ≤ n → p (Char.ofNat n)) {c : Char} (hc : isDigit c) :
    p c := by
  obtain ⟨hlow, hhigh⟩ := toNat_of_isDigit hc
  rw [← Char.ofNat_toNat c]
  exact h c.toNat (by omega) hlow

theorem isDigit_of_mem_toDigits {n : Nat} {c : Char} (h : c ∈ Nat.toDigits 10 n) : isDigit c := by
  have hdigit := Nat.isDigit_of_mem_toDigits (by omega) (by omega) h
  simp only [Char.isDigit, ge_iff_le, Bool.and_eq_true, decide_eq_true_eq] at hdigit
  simp only [isDigit, Bool.and_eq_true, decide_eq_true_eq]
  exact hdigit

theorem toDigits_cons {n : Nat} (hn : n ≠ 0) : ∃ c cs, Nat.toDigits 10 n = c :: cs ∧ c ≠ '0' := by
  induction n using Nat.strongRecOn with
  | ind n ih =>
    by_cases hsmall : n < 10
    · refine ⟨Nat.digitChar n, [], Nat.toDigits_of_lt_base hsmall, ?_⟩
      have hdigit : ∀ d < 10, d ≠ 0 → Nat.digitChar d ≠ '0' := by decide
      exact hdigit n hsmall hn
    · obtain ⟨c, cs, heq, hc⟩ := ih (n / 10) (by omega) (by omega)
      refine ⟨c, cs ++ [Nat.digitChar (n % 10)], ?_, hc⟩
      rw [Nat.toDigits_of_base_le (by omega) (by omega), heq]
      rfl

theorem foldl_digits (ds : Text) (n : Nat) :
    ds.foldl (fun (n : Int) c => n * 10 + (c.toNat - '0'.toNat : Nat)) n = (Nat.ofDigitChars 10 ds n : Nat) := by
  induction ds generalizing n with
  | nil => rfl
  | cons c ds ih =>
    rw [List.foldl_cons, Nat.ofDigitChars_cons, ← ih]
    congr 1
    push_cast
    ring

theorem takeWhile_toDigits (n : Nat) : (Nat.toDigits 10 n).takeWhile isDigit = Nat.toDigits 10 n :=
  List.takeWhile_eq_self_iff.mpr fun _ hc => isDigit_of_mem_toDigits hc

/-- The digits of a number, of which the first one is told apart. -/
theorem toDigits_head (n : Nat) : ∃ c cs, Nat.toDigits 10 n = c :: cs ∧ isDigit c := by
  obtain ⟨c, cs, heq⟩ := List.exists_cons_of_ne_nil (Nat.toDigits_ne_nil (n := n) (b := 10))
  exact ⟨c, cs, heq, isDigit_of_mem_toDigits (heq ▸ List.mem_cons_self)⟩

theorem decimal_ne_nil (n : Int) : decimal n ≠ [] := by
  unfold decimal
  split
  · exact List.cons_ne_nil _ _
  · exact Nat.toDigits_ne_nil

theorem foldl_toDigits (n : Nat) : ((Nat.toDigits 10 n).takeWhile isDigit).foldl
    (fun (n : Int) c => n * 10 + (c.toNat - '0'.toNat : Nat)) 0 = n := by
  rw [takeWhile_toDigits, ← Int.natCast_zero, foldl_digits, Nat.ofDigitChars_ten_toDigits]

/-- **The text of an `int64_t` is read back.** -/
theorem atol_decimal {n : Int} (hlow : -2 ^ 63 ≤ n) (hhigh : n < 2 ^ 63) : atol (decimal n) = n := by
  unfold decimal
  by_cases hneg : n < 0
  · rw [if_pos hneg]
    show max (-((Nat.toDigits 10 n.natAbs).takeWhile isDigit).foldl _ (0 : Int)) (-2 ^ 63) = n
    rw [foldl_toDigits]
    omega
  · obtain ⟨c, cs, heq, hc⟩ := toDigits_head n.natAbs
    have hspace : ¬ isSpace c := digit_induction (p := fun c => ¬ isSpace c) (by decide) hc
    have hsign : c ≠ '-' ∧ c ≠ '+' := digit_induction (p := fun c => c ≠ '-' ∧ c ≠ '+') (by decide) hc
    have hdigits := foldl_toDigits n.natAbs
    rw [if_neg hneg]
    rw [heq] at hdigits ⊢
    unfold atol
    rw [List.dropWhile_cons_of_neg hspace]
    split
    next neg ds hsplit =>
      split at hsplit
      · next h => exact absurd (List.cons.inj h).1 hsign.1
      · next h => exact absurd (List.cons.inj h).1 hsign.2
      · obtain ⟨rfl, rfl⟩ := Prod.mk.inj hsplit
        rw [hdigits, if_neg (by decide)]
        omega

theorem skipDigits_append {ds rest : Text} (hds : ∀ c ∈ ds, isDigit c) (hrest : Ends rest) :
    skipDigits (ds ++ rest) = rest := dropWhile_append_ends (by decide) hds hrest

theorem skipExponent_skipFraction {rest : Text} (hrest : Ends rest) : skipExponent (skipFraction rest) = rest := by
  cases rest with
  | nil => rfl
  | cons c cs => rcases hrest c cs rfl with rfl | rfl | rfl <;> rfl

theorem skipInteger_toDigits (n : Nat) {rest : Text} (hrest : Ends rest) :
    skipInteger (Nat.toDigits 10 n ++ rest) = rest := by
  by_cases hn : n = 0
  · subst hn
    show skipPositive rest = rest
    cases rest with
    | nil => rfl
    | cons c cs => rcases hrest c cs rfl with rfl | rfl | rfl <;> rfl
  · obtain ⟨c, cs, heq, hzero⟩ := toDigits_cons hn
    have hall : ∀ d ∈ c :: cs, isDigit d := fun d hd => isDigit_of_mem_toDigits (heq ▸ hd)
    have hc : '1' ≤ c ∧ c ≤ '9' := by
      have hdigit := hall c List.mem_cons_self
      simp only [isDigit, Bool.and_eq_true, decide_eq_true_eq] at hdigit
      exact ⟨one_le_of_zero_le hdigit.1 hzero, hdigit.2⟩
    rw [heq, List.cons_append]
    unfold skipInteger
    split
    · next h => exact absurd (List.cons.inj h).1 hzero
    · rw [skipPositive, if_pos hc]
      exact skipDigits_append (fun d hd => hall d (List.mem_cons_of_mem c hd)) hrest

/-- **The parser reads the number up to its end.** -/
theorem skipNumber_decimal (n : Int) {rest : Text} (hrest : Ends rest) : skipNumber (decimal n ++ rest) = rest := by
  have hinteger : skipInteger (skipSign (decimal n ++ rest)) = rest := by
    unfold decimal
    split
    · exact skipInteger_toDigits n.natAbs hrest
    · obtain ⟨c, cs, heq, hc⟩ := toDigits_head n.natAbs
      have hsign : c ≠ '-' := digit_induction (p := fun c => c ≠ '-') (by decide) hc
      have hskip : skipSign (Nat.toDigits 10 n.natAbs ++ rest) = Nat.toDigits 10 n.natAbs ++ rest := by
        rw [heq, List.cons_append]
        unfold skipSign
        split
        · next h => exact absurd (List.cons.inj h).1 hsign
        · rfl
      rw [hskip]
      exact skipInteger_toDigits n.natAbs hrest
  unfold skipNumber
  rw [hinteger]
  exact skipExponent_skipFraction hrest

/-- A number text that is read whole, and printed as it was. -/
structure Numeral (render : Text → Text) (printed : Text) : Prop where
  head : ∃ c cs, printed = c :: cs ∧ (c = '-' ∨ isDigit c)
  chars : ∀ c ∈ printed, isNumberChar c
  ends : ∀ rest, Ends rest → skipNumber (printed ++ rest) = rest
  renders : render printed = printed

theorem numeral_decimal {render : Text → Text} {n : Int} (hrender : render (decimal n) = decimal n) :
    Numeral render (decimal n) where
  head := by
    unfold decimal
    split
    · exact ⟨'-', _, rfl, .inl rfl⟩
    · obtain ⟨c, cs, heq, hc⟩ := toDigits_head n.natAbs
      exact ⟨c, cs, heq, .inr hc⟩
  chars := by
    have hdigits : ∀ c ∈ Nat.toDigits 10 n.natAbs, isNumberChar c := fun c hc =>
      digit_induction (p := fun c => isNumberChar c) (by decide) (isDigit_of_mem_toDigits hc)
    unfold decimal
    split
    · exact List.forall_mem_cons.mpr ⟨by decide, hdigits⟩
    · exact hdigits
  ends := fun _ hrest => skipNumber_decimal n hrest
  renders := hrender

/-! ## Nodes -/

/-- No space, no quote, no backslash and no control character. -/
def Bare (str : Text) : Prop := ∀ c ∈ str, 32 < c.toNat ∧ c ≠ '"' ∧ c ≠ '\\'

instance (str : Text) : Decidable (Bare str) := List.decidableBAll _ str

theorem Bare.unescaped {str : Text} (h : Bare str) : Unescaped str := fun c hc =>
  ⟨Nat.lt_trans (by omega) (h c hc).1, (h c hc).2⟩

theorem Bare.unspace {str : Text} (h : Bare str) : unspace str = str := by
  apply List.filter_eq_self.mpr
  intro c hc
  have hwhite := (h c hc).1
  simp only [ne_eq, decide_not, Bool.not_eq_eq_eq_not, Bool.not_true, decide_eq_false_iff_not]
  rintro rfl
  exact absurd hwhite (by decide)

section
variable (render : Text → Text)

mutual

/-- A node of bare strings, whose numbers are printed as they are read. -/
def Compact : Json → Prop
  | number printed => Numeral render printed
  | string str => Bare str
  | array child => CompactArray child
  | object child => CompactObject child
  | _ => True

def CompactArray : List Json → Prop
  | [] => True
  | child :: children => Compact child ∧ CompactArray children

def CompactObject : List (Text × Json) → Prop
  | [] => True
  | (name, child) :: children => Bare name ∧ Compact child ∧ CompactObject children

end

end

section
variable {render : Text → Text}

theorem Numeral.flat {printed : Text} (h : Numeral render printed) : flat (number printed) = printed :=
  stripwhite_number h.chars

theorem printString_append {str : Text} (h : Bare str) (x : Text) :
    printString str ++ x = '"' :: (str ++ '"' :: x) := by
  unfold printString
  rw [h.unescaped.flatMap_escapeChar, List.append_assoc]
  rfl

/-- The first character is printed, and closes no array. -/
theorem flat_head {item : Json} (h : Compact render item) : ∃ c cs, flat item = c :: cs ∧ 32 < c.toNat ∧ c ≠ ']' := by
  match item with
  | null => exact ⟨'n', "ull".toList, rfl, by decide⟩
  | false => exact ⟨'f', "alse".toList, rfl, by decide⟩
  | true => exact ⟨'t', "rue".toList, rfl, by decide⟩
  | number printed =>
    obtain ⟨c, cs, heq, hc⟩ := Numeral.head h
    have hchar : 32 < c.toNat ∧ c ≠ ']' := by
      rcases hc with rfl | hdigit
      · decide
      · exact digit_induction (p := fun c => 32 < c.toNat ∧ c ≠ ']') (by decide) hdigit
    exact ⟨c, cs, (Numeral.flat h).trans heq, hchar⟩
  | string str => exact ⟨'"', _, rfl, by decide⟩
  | array child => exact ⟨'[', _, rfl, by decide⟩
  | object child => exact ⟨'\x7b', _, rfl, by decide⟩

theorem skip_cons {c : Char} (hc : 32 < c.toNat) (cs : Text) : skip (c :: cs) = c :: cs :=
  List.dropWhile_cons_of_neg (by simpa using hc)

theorem skip_flat {item : Json} (h : Compact render item) (rest : Text) :
    skip (flat item ++ rest) = flat item ++ rest := by
  obtain ⟨c, cs, heq, hc, -⟩ := flat_head h
  rw [heq, List.cons_append, skip_cons hc]

theorem parseValue_number (fuel : Nat) {c : Char} (hc : c = '-' ∨ isDigit c) (cs : Text) :
    parseValue render (fuel + 1) (c :: cs) =
      some (number (render ((c :: cs).take ((c :: cs).length - (skipNumber (c :: cs)).length))),
        skipNumber (c :: cs)) := by
  have hother : c ≠ 'n' ∧ c ≠ 'f' ∧ c ≠ 't' ∧ c ≠ '"' ∧ c ≠ '[' ∧ c ≠ '\x7b' := by
    rcases hc with rfl | hdigit
    · decide
    · exact digit_induction (p := fun c => c ≠ 'n' ∧ c ≠ 'f' ∧ c ≠ 't' ∧ c ≠ '"' ∧ c ≠ '[' ∧ c ≠ '\x7b')
        (by decide) hdigit
  obtain ⟨hn, hf, ht, hquote, hbracket, hbrace⟩ := hother
  unfold parseValue
  split
  · next h => exact absurd (List.cons.inj h).1 hn
  · next h => exact absurd (List.cons.inj h).1 hf
  · next h => exact absurd (List.cons.inj h).1 ht
  · next h => exact absurd (List.cons.inj h).1 hquote
  · next h => exact absurd (List.cons.inj h).1 hbracket
  · next h => exact absurd (List.cons.inj h).1 hbrace
  · next h =>
    obtain ⟨rfl, rfl⟩ := List.cons.inj h
    rw [if_pos hc]
  · next h => cases h

/-- The member `m`, and the members that are read behind it. -/
def membersBehind (render : Text → Text) (fuel : Nat) (m : Text × Json) (rest : Text) :
    Option (List (Text × Json) × Text) :=
  match skip rest with
  | ',' :: cs => (parseObject render fuel cs).map fun (members, rest) => (m :: members, rest)
  | '\x7d' :: cs => some ([m], cs)
  | _ => none

theorem parseObject_cons {name : Text} {child : Json} {children : List (Text × Json)} (hname : Bare name)
    (hchild : Compact render child) {fuel : Nat} {rest : Text}
    (hvalue : parseValue render fuel (flat child ++ objectRest children rest) =
      some (child, objectRest children rest)) :
    parseObject render (fuel + 1) (flatObject ((name, child) :: children) ++ '\x7d' :: rest) =
      membersBehind render fuel (name, child) (objectRest children rest) := by
  rw [flatObject_cons_append, hname.unspace, parseObject]
  have hskip : skip (printString name ++ ':' :: (flat child ++ objectRest children rest)) =
      '"' :: (name.flatMap escapeChar ++ '"' :: ':' :: (flat child ++ objectRest children rest)) := by
    unfold printString
    rw [List.append_assoc]
    exact skip_cons (by decide) _
  have hcolon : ∀ cs : Text, skip (':' :: cs) = ':' :: cs := fun cs => skip_cons (by decide) cs
  rw [hskip]
  simp only [parseString, stringBody_printed, hname.unescaped.readBack, hcolon, skip_flat hchild, hvalue]
  rfl

theorem parseValue_numeral {printed : Text} (h : Numeral render printed) (fuel : Nat) {rest : Text}
    (hrest : Ends rest) :
    parseValue render (fuel + 1) (flat (number printed) ++ rest) = some (number printed, rest) := by
  obtain ⟨c, cs, heq, hc⟩ := h.head
  have hends := h.ends rest hrest
  rw [h.flat]
  rw [heq, List.cons_append] at hends ⊢
  rw [parseValue_number fuel hc, hends]
  have htake : (c :: (cs ++ rest)).take ((c :: (cs ++ rest)).length - rest.length) = c :: cs := by
    have hlen : (c :: (cs ++ rest)).length - rest.length = (c :: cs).length := by
      simp only [List.length_cons, List.length_append]
      omega
    rw [hlen, ← List.cons_append, List.take_left]
  rw [htake, ← heq, h.renders]

theorem parseValue_bare {str : Text} (h : Bare str) (fuel : Nat) (rest : Text) :
    parseValue render (fuel + 1) (flat (string str) ++ rest) = some (string str, rest) := by
  show parseValue render (fuel + 1) (printString (unspace str) ++ rest) = _
  unfold printString
  rw [h.unspace, List.append_assoc, List.cons_append, parseValue, List.singleton_append, stringBody_printed,
    h.unescaped.readBack]

mutual

/-- **A compact node is read up to its end.** -/
theorem parseValue_flat (item : Json) (h : Compact render item) {fuel : Nat} {rest : Text} (hrest : Ends rest)
    (hfuel : 2 * (flat item ++ rest).length < fuel) :
    parseValue render fuel (flat item ++ rest) = some (item, rest) := by
  obtain ⟨fuel, rfl⟩ : ∃ k, fuel = k + 1 := ⟨fuel - 1, by omega⟩
  match item with
  | null => rfl
  | false => rfl
  | true => rfl
  | number printed => exact parseValue_numeral h fuel hrest
  | string str => exact parseValue_bare h fuel rest
  | array [] => rfl
  | array (child :: children) =>
    rw [flat_array_append] at hfuel ⊢
    obtain ⟨c, cs, heq, hc, hbracket⟩ := flat_head h.1
    have hskip : skip (flatArray (child :: children) ++ ']' :: rest) = flatArray (child :: children) ++ ']' ::
        rest := by
      rw [flatArray_cons_append]
      exact skip_flat h.1 _
    rw [parseValue, hskip]
    split
    · next hclose =>
      rw [flatArray_cons_append, heq, List.cons_append] at hclose
      exact absurd (List.cons.inj hclose).1 hbracket
    · rw [parseArray_flat (child :: children) (List.cons_ne_nil _ _) h (by simp at hfuel ⊢; omega)]
      rfl
  | object [] => rfl
  | object ((name, child) :: children) =>
    rw [flat_object_append] at hfuel ⊢
    have hname : Bare name := h.1
    have hskip : skip (flatObject ((name, child) :: children) ++ '\x7d' :: rest) =
        flatObject ((name, child) :: children) ++ '\x7d' :: rest := by
      rw [flatObject_cons_append]
      exact skip_cons (by decide) _
    rw [parseValue, hskip]
    split
    · next hclose =>
      rw [flatObject_cons_append] at hclose
      exact absurd (List.cons.inj hclose).1 (by decide)
    · rw [parseObject_flat ((name, child) :: children) (List.cons_ne_nil _ _) h (by simp at hfuel ⊢; omega)]
      rfl

theorem parseArray_flat (children : List Json) (hne : children ≠ []) (h : CompactArray render children) {fuel : Nat}
    {rest : Text} (hfuel : 2 * (flatArray children ++ ']' :: rest).length + 1 < fuel) :
    parseArray render fuel (flatArray children ++ ']' :: rest) = some (children, rest) := by
  obtain ⟨fuel, rfl⟩ : ∃ k, fuel = k + 1 := ⟨fuel - 1, by omega⟩
  match children with
  | [] => exact absurd rfl hne
  | child :: children =>
    rw [flatArray_cons_append] at hfuel ⊢
    have hvalue : parseValue render fuel (flat child ++ arrayRest children rest) =
        some (child, arrayRest children rest) :=
      parseValue_flat child h.1 (ends_arrayRest children rest) (by omega)
    rw [parseArray, skip_flat h.1, hvalue]
    match children with
    | [] => rfl
    | child' :: children =>
      have hcomma : skip (arrayRest (child' :: children) rest) =
          ',' :: (flatArray (child' :: children) ++ ']' :: rest) :=
        skip_cons (by decide) _
      have hlen : (arrayRest (child' :: children) rest).length =
          (flatArray (child' :: children) ++ ']' :: rest).length + 1 := rfl
      rw [List.length_append, hlen] at hfuel
      dsimp only
      rw [hcomma]
      show (parseArray render fuel (flatArray (child' :: children) ++ ']' :: rest)).map _ = _
      rw [parseArray_flat (child' :: children) (List.cons_ne_nil _ _) h.2 (by omega)]
      rfl

theorem parseObject_flat (ms : List (Text × Json)) (hne : ms ≠ []) (h : CompactObject render ms) {fuel : Nat}
    {rest : Text} (hfuel : 2 * (flatObject ms ++ '\x7d' :: rest).length + 1 < fuel) :
    parseObject render fuel (flatObject ms ++ '\x7d' :: rest) = some (ms, rest) := by
  obtain ⟨fuel, rfl⟩ : ∃ k, fuel = k + 1 := ⟨fuel - 1, by omega⟩
  match ms with
  | [] => exact absurd rfl hne
  | (name, child) :: ms =>
    obtain ⟨hname, hchild, hrest⟩ := h
    have hlen : (flat child ++ objectRest ms rest).length <
        (flatObject ((name, child) :: ms) ++ '\x7d' :: rest).length := by
      rw [flatObject_cons_append]
      simp [printString]
      omega
    have hvalue : parseValue render fuel (flat child ++ objectRest ms rest) = some (child, objectRest ms rest) :=
      parseValue_flat child hchild (ends_objectRest ms rest) (by omega)
    rw [parseObject_cons hname hchild hvalue]
    match ms with
    | [] => rfl
    | m :: ms =>
      have hcomma : skip (objectRest (m :: ms) rest) = ',' :: (flatObject (m :: ms) ++ '\x7d' :: rest) :=
        skip_cons (by decide) _
      have hshort : (objectRest (m :: ms) rest).length = (flatObject (m :: ms) ++ '\x7d' :: rest).length + 1 := rfl
      rw [List.length_append, hshort] at hlen
      rw [membersBehind, hcomma]
      show (parseObject render fuel (flatObject (m :: ms) ++ '\x7d' :: rest)).map _ = _
      rw [parseObject_flat (m :: ms) (List.cons_ne_nil _ _) hrest (by omega)]
      rfl

end

/-- **A printed node is read back without its white space.** -/
theorem cJSONParse_flat {item : Json} (h : Compact render item) : cJSONParse render (flat item) = some item := by
  have hends : Ends [] := fun _ _ hnil => by cases hnil
  have hskip := skip_flat h []
  have hparse : parseValue render (2 * (flat item).length + 1) (flat item ++ []) = some (item, []) :=
    parseValue_flat item h hends (by simp)
  rw [List.append_nil] at hskip hparse
  unfold cJSONParse
  rw [hskip, hparse]
  rfl

theorem compact_objectOf {fields : List (String × Option Json)}
    (h : ∀ f ∈ fields, Bare f.1.toList ∧ ∀ item ∈ f.2, Compact render item) : Compact render (objectOf fields) := by
  show CompactObject render (fields.filterMap _)
  induction fields with
  | nil => trivial
  | cons f fields ih =>
    obtain ⟨⟨hname, hitem⟩, hrest⟩ := List.forall_mem_cons.mp h
    obtain ⟨name, item⟩ := f
    cases item with
    | none => exact ih hrest
    | some item => exact ⟨hname, hitem item rfl, ih hrest⟩

/-! ## The characters of a compact node -/

/-- A character that is printed as it is, or a quote. -/
def isClear (c : Char) : Bool := 31 < c.toNat ∧ c ≠ '\\'

theorem clear_append {s t : Text} (hs : ∀ c ∈ s, isClear c) (ht : ∀ c ∈ t, isClear c) : ∀ c ∈ s ++ t, isClear c :=
  List.forall_mem_append.mpr ⟨hs, ht⟩

theorem clear_cons {c : Char} {t : Text} (hc : isClear c) (ht : ∀ c ∈ t, isClear c) : ∀ d ∈ c :: t, isClear d :=
  List.forall_mem_cons.mpr ⟨hc, ht⟩

theorem clear_printString {str : Text} (h : Bare str) : ∀ c ∈ printString (unspace str), isClear c := by
  rw [h.unspace, ← List.append_nil (printString str), printString_append h]
  have hstr : ∀ c ∈ str, isClear c := fun c hc =>
    decide_eq_true ⟨Nat.lt_trans (by omega) (h c hc).1, (h c hc).2.2⟩
  exact clear_cons (by decide) (clear_append hstr (clear_cons (by decide) (List.forall_mem_nil _)))

mutual

theorem flat_clear (item : Json) (h : Compact render item) : ∀ c ∈ flat item, isClear c := by
  match item with
  | null => exact List.all_eq_true.mp (by decide)
  | false => exact List.all_eq_true.mp (by decide)
  | true => exact List.all_eq_true.mp (by decide)
  | number printed =>
    rw [Numeral.flat h]
    intro c hc
    have hnumber : ∀ d ∈ "0123456789+-.aefin".toList, isClear d := List.all_eq_true.mp (by decide)
    exact hnumber c (by simpa [isNumberChar] using Numeral.chars h c hc)
  | string str => exact clear_printString h
  | array child =>
    exact clear_append (clear_cons (by decide) (flatArray_clear child h))
      (clear_cons (by decide) (List.forall_mem_nil _))
  | object child =>
    exact clear_append (clear_cons (by decide) (flatObject_clear child h))
      (clear_cons (by decide) (List.forall_mem_nil _))

theorem flatArray_clear (children : List Json) (h : CompactArray render children) :
    ∀ c ∈ flatArray children, isClear c := by
  match children with
  | [] => exact List.forall_mem_nil _
  | [child] => exact flat_clear child h.1
  | child :: child' :: children =>
    exact clear_append (flat_clear child h.1) (clear_cons (by decide) (flatArray_clear (child' :: children) h.2))

theorem flatObject_clear (ms : List (Text × Json)) (h : CompactObject render ms) : ∀ c ∈ flatObject ms, isClear c := by
  match ms with
  | [] => exact List.forall_mem_nil _
  | [(name, child)] =>
    exact clear_append (clear_printString h.1) (clear_cons (by decide) (flat_clear child h.2.1))
  | (name, child) :: m :: ms =>
    exact clear_append (clear_append (clear_printString h.1) (clear_cons (by decide) (flat_clear child h.2.1)))
      (clear_cons (by decide) (flatObject_clear (m :: ms) h.2.2))

end

end

end NXTServices.Json
