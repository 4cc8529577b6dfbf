import NXTServices.Compact

/-!
# A printed node is read back

* `Settled`, `Readable` : the numbers and the nodes that a text can hold;
* `settled_decimal` : the numbers of `"%d"`;
* `arrayTail`, `objectTail` : what is printed behind a child;
* `parseValue_printValue` : a printed node is read up to its end, at any depth;
* `cJSONParse_cJSONPrint` : what is printed is read back, whatever its white space;
* `numbersOf`, `Unbroken` : the numbers of a node, and the strings of C;
* `parsesReadable` : what the parsers give can be printed and read;
* `cJSONPrint_reread` : **a node that was read, printed and read again is the same**.
-/

namespace NXTServices.Json
open Torrent (decimal)

/-- What stands behind a printed child. -/
def Breaks (rest : Text) : Prop := ∀ c cs, rest = c :: cs → c = ',' ∨ c = ']' ∨ c = '\n'

/-- A number text that is read up to its end, and printed as it was. -/
structure Settled (render : Text → Text) (printed : Text) : Prop where
  head : ∃ c cs, printed = c :: cs ∧ (c = '-' ∨ isDigit c)
  breaks : ∀ rest, Breaks rest → skipNumber (printed ++ rest) = rest
  renders : render printed = printed

section
variable (render : Text → Text)

mutual

/-- The numbers are settled, and no string has a zero character. -/
def Readable : Json → Prop
  | number printed => Settled render printed
  | string str => Char.ofNat 0 ∉ str
  | array child => ReadableArray child
  | object child => ReadableObject child
  | _ => True

def ReadableArray : List Json → Prop
  | [] => True
  | child :: children => Readable child ∧ ReadableArray children

def ReadableObject : List (Text × Json) → Prop
  | [] => True
  | (name, child) :: children => Char.ofNat 0 ∉ name ∧ Readable child ∧ ReadableObject children

end

end

/-! ## Decimal numbers -/

theorem skipDigits_breaks {ds rest : Text} (hds : ∀ c ∈ ds, isDigit c) (hrest : Breaks rest) :
    skipDigits (ds ++ rest) = rest := by
  unfold skipDigits
  rw [List.dropWhile_append_of_pos hds]
  cases rest with
  | nil => rfl
  | cons c cs => rcases hrest c cs rfl with rfl | rfl | rfl <;> rfl

theorem skipInteger_breaks (n : Nat) {rest : Text} (hrest : Breaks rest) :
    skipInteger (Nat.toDigits 10 n ++ rest) = rest := by
  by_cases hn : n = 0
  · subst hn
    show skipPositive rest = rest
    cases rest with
    | nil => rfl
    | cons c cs => rcases hrest c cs rfl with rfl | rfl | rfl <;> rfl
  · obtain ⟨c, cs, heq, hzero⟩ := toDigits_cons hn
    have hall : ∀ d ∈ c :: cs, isDigit d := fun d hd => isDigit_of_mem_toDigits (heq ▸ hd)
    obtain ⟨hc, hcs⟩ := List.forall_mem_cons.mp hall
    simp only [isDigit, Bool.and_eq_true, decide_eq_true_eq] at hc
    rw [heq, List.cons_append]
    unfold skipInteger
    split
    · next h => exact absurd (List.cons.inj h).1 hzero
    · rw [skipPositive, if_pos ⟨one_le_of_zero_le hc.1 hzero, hc.2⟩]
      exact skipDigits_breaks hcs hrest

/-- The numbers without a fraction are settled. -/
theorem settled_decimal {render : Text → Text} {n : Int} (hrender : render (decimal n) = decimal n) :
    Settled render (decimal n) where
  head := (numeral_decimal hrender).head
  breaks := by
    intro rest hrest
    have hinteger : skipInteger (skipSign (decimal n ++ rest)) = rest := by
      unfold decimal
      split
      · exact skipInteger_breaks n.natAbs hrest
      · obtain ⟨c, cs, heq, hc⟩ := toDigits_head n.natAbs
        have hsign : c ≠ '-' := digit_induction (p := fun c => c ≠ '-') (by decide) hc
        have hskip : skipSign (Nat.toDigits 10 n.natAbs ++ rest) = Nat.toDigits 10 n.natAbs ++ rest := by
          rw [heq, List.cons_append]
          unfold skipSign
          split
          · next h => exact absurd (List.cons.inj h).1 hsign
          · rfl
        rw [hskip]
        exact skipInteger_breaks n.natAbs hrest
    rw [skipNumber, hinteger]
    cases rest with
    | nil => rfl
    | cons c cs => rcases hrest c cs rfl with rfl | rfl | rfl <;> rfl
  renders := hrender

/-! ## Texts -/

/-- The text behind the first child of an array. -/
def arrayTail (children : List Json) (depth : Nat) (rest : Text) : Text :=
  match children with
  | [] => ']' :: rest
  | children => ',' :: ' ' :: (printArray children depth ++ ']' :: rest)

/-- The text behind the first member of an object. -/
def objectTail (children : List (Text × Json)) (depth d : Nat) (rest : Text) : Text :=
  match children with
  | [] => '\n' :: (tabs d ++ '\x7d' :: rest)
  | children => ',' :: '\n' :: (printObject children depth ++ (tabs d ++ '\x7d' :: rest))

theorem breaks_arrayTail (children : List Json) (depth : Nat) (rest : Text) :
    Breaks (arrayTail children depth rest) := by
  intro c cs h
  cases children with
  | nil => exact .inr (.inl (List.cons.inj h).1.symm)
  | cons child children => exact .inl (List.cons.inj h).1.symm

theorem breaks_objectTail (children : List (Text × Json)) (depth d : Nat) (rest : Text) :
    Breaks (objectTail children depth d rest) := by
  intro c cs h
  cases children with
  | nil => exact .inr (.inr (List.cons.inj h).1.symm)
  | cons m children => exact .inl (List.cons.inj h).1.symm

theorem breaks_nil : Breaks [] := fun _ _ h => by cases h

theorem printArray_cons_append (child : Json) (children : List Json) (depth : Nat) (rest : Text) :
    printArray (child :: children) depth ++ ']' :: rest = printValue child depth ++ arrayTail children depth rest := by
  have hsep : ", ".toList = [',', ' '] := rfl
  cases children with
  | nil => rfl
  | cons child' children =>
    rw [printArray, hsep, arrayTail]
    · simp only [List.append_assoc, List.cons_append, List.nil_append]
    · exact List.cons_ne_nil _ _
    · exact List.cons_ne_nil _ _

theorem printObject_cons_append (name : Text) (child : Json) (children : List (Text × Json)) (depth d : Nat)
    (rest : Text) : printObject ((name, child) :: children) depth ++ (tabs d ++ '\x7d' :: rest) =
      tabs depth ++ '"' :: (name.flatMap escapeChar ++ '"' :: ':' :: '\t' ::
        (printValue child depth ++ objectTail children depth d rest)) := by
  have hsep : ":\t".toList = [':', '\t'] := rfl
  have hcomma : ",\n".toList = [',', '\n'] := rfl
  cases children with
  | nil =>
    rw [printObject, hsep, printString, objectTail]
    simp only [List.append_assoc, List.cons_append, List.nil_append]
  | cons m children =>
    rw [printObject, hsep, hcomma, printString, objectTail]
    · simp only [List.append_assoc, List.cons_append, List.nil_append]
    · exact List.cons_ne_nil _ _
    · exact List.cons_ne_nil _ _

theorem printValue_array_append (child : List Json) (depth : Nat) (rest : Text) :
    printValue (array child) depth ++ rest = '[' :: (printArray child (depth + 1) ++ ']' :: rest) := by
  rw [printValue, List.append_assoc]
  rfl

theorem printValue_object_append (m : Text × Json) (child : List (Text × Json)) (depth : Nat) (rest : Text) :
    printValue (object (m :: child)) depth ++ rest =
      '\x7b' :: '\n' :: (printObject (m :: child) (depth + 1) ++ (tabs depth ++ '\x7d' :: rest)) := by
  have hopen : "\x7b\n".toList = ['\x7b', '\n'] := rfl
  rw [printValue, hopen]
  · simp only [List.append_assoc, List.cons_append, List.nil_append]
  · exact List.cons_ne_nil _ _

/-! ## Reading -/

section
variable {render : Text → Text}

theorem readBack_eq_self {str : Text} (h : Char.ofNat 0 ∉ str) : readBack str = str := by
  apply List.filter_eq_self.mpr
  intro c hc
  have hzero : c ≠ Char.ofNat 0 := fun heq => h (heq ▸ hc)
  simpa using hzero

/-- The first character is printed, and closes no array. -/
theorem printValue_head {item : Json} (h : Readable render item) (depth : Nat) :
    ∃ c cs, printValue item depth = c :: cs ∧ 32 < c.toNat ∧ c ≠ ']' := by
  match item with
  | null => exact ⟨'n', "ull".toList, rfl, by decide⟩
  | false => exact ⟨'f', "alse".toList, rfl, by decide⟩
  | true => exact ⟨'t', "rue".toList, rfl, by decide⟩
  | number printed =>
    obtain ⟨c, cs, heq, hc⟩ := Settled.head h
    have hchar : 32 < c.toNat ∧ c ≠ ']' := by
      rcases hc with rfl | hdigit
      · decide
      · exact digit_induction (p := fun c => 32 < c.toNat ∧ c ≠ ']') (by decide) hdigit
    exact ⟨c, cs, heq, hchar⟩
  | string str => exact ⟨'"', _, rfl, by decide⟩
  | array child => exact ⟨'[', _, rfl, by decide⟩
  | object [] => exact ⟨'\x7b', _, rfl, by decide⟩
  | object (m :: child) => exact ⟨'\x7b', _, rfl, by decide⟩

theorem skip_printValue {item : Json} (h : Readable render item) (depth : Nat) (rest : Text) :
    skip (printValue item depth ++ rest) = printValue item depth ++ rest := by
  obtain ⟨c, cs, heq, hc, -⟩ := printValue_head h depth
  rw [heq, List.cons_append, skip_cons hc]

theorem parseValue_settled {printed : Text} (h : Settled render printed) (fuel : Nat) {rest : Text}
    (hrest : Breaks rest) : parseValue render (fuel + 1) (printed ++ rest) = some (number printed, rest) := by
  obtain ⟨c, cs, heq, hc⟩ := h.head
  have hends := h.breaks rest hrest
  rw [heq, List.cons_append] at hends ⊢
  rw [parseValue_number fuel hc, hends]
  have htake : (c :: (cs ++ rest)).take ((c :: (cs ++ rest)).length - rest.length) = c :: cs := by
    have hlen : (c :: (cs ++ rest)).length - rest.length = (c :: cs).length := by
      simp only [List.length_cons, List.length_append]
      omega
    rw [hlen, ← List.cons_append, List.take_left]
  rw [htake, ← heq, h.renders]

theorem parseArray_space (fuel : Nat) (value : Text) :
    parseArray render fuel (' ' :: value) = parseArray render fuel value := by
  cases fuel with
  | zero => rfl
  | succ fuel =>
    have hskip : skip (' ' :: value) = skip value := rfl
    rw [parseArray, parseArray, hskip]

theorem parseObject_newline (fuel : Nat) (value : Text) :
    parseObject render fuel ('\n' :: value) = parseObject render fuel value := by
  have hskip : skip ('\n' :: value) = skip value := rfl
  rw [← parseObject_skip, hskip, parseObject_skip]

/-- The first member is read, and then what is behind it. -/
theorem parseObject_printed_cons {name : Text} {child : Json} {children : List (Text × Json)}
    (hname : Char.ofNat 0 ∉ name) (hchild : Readable render child) {fuel depth d : Nat} {rest : Text}
    (hvalue : parseValue render fuel (printValue child depth ++ objectTail children depth d rest) =
      some (child, objectTail children depth d rest)) :
    parseObject render (fuel + 1) (printObject ((name, child) :: children) depth ++ (tabs d ++ '\x7d' :: rest)) =
      membersBehind render fuel (name, child) (objectTail children depth d rest) := by
  have hcolon (cs : Text) : skip (':' :: cs) = ':' :: cs := skip_cons (by decide) cs
  have htab : skip ('\t' :: (printValue child depth ++ objectTail children depth d rest)) =
      printValue child depth ++ objectTail children depth d rest := by
    show skip (printValue child depth ++ objectTail children depth d rest) = _
    exact skip_printValue hchild depth _
  rw [printObject_cons_append, parseObject, skip_append (white_tabs depth) (by decide)]
  simp only [parseString, stringBody_printed, readBack_eq_self hname, hcolon, htab, hvalue]
  rfl

mutual

/-- **A printed node is read up to its end.** -/
theorem parseValue_printValue (item : Json) (h : Readable render item) (depth : Nat) {fuel : Nat} {rest : Text}
    (hrest : Breaks rest) (hfuel : 2 * (printValue item depth ++ rest).length < fuel) :
    parseValue render fuel (printValue item depth ++ rest) = some (item, rest) := by
  obtain ⟨fuel, rfl⟩ : ∃ k, fuel = k + 1 := ⟨fuel - 1, by omega⟩
  match item with
  | null => rfl
  | false => rfl
  | true => rfl
  | number printed => exact parseValue_settled h fuel hrest
  | string str =>
    show parseValue render (fuel + 1) ('"' :: str.flatMap escapeChar ++ ['"'] ++ rest) = _
    rw [List.append_assoc, List.cons_append, parseValue, List.singleton_append, stringBody_printed, readBack_eq_self h]
  | array [] => rfl
  | array (child :: children) =>
    obtain ⟨c, cs, heq, hc, hbracket⟩ := printValue_head h.1 (depth + 1)
    rw [printValue_array_append] at hfuel ⊢
    have hskip : skip (printArray (child :: children) (depth + 1) ++ ']' :: rest) =
        printArray (child :: children) (depth + 1) ++ ']' :: rest := by
      rw [printArray_cons_append]
      exact skip_printValue h.1 _ _
    rw [parseValue, hskip]
    split
    · next hclose =>
      rw [printArray_cons_append, heq, List.cons_append] at hclose
      exact absurd (List.cons.inj hclose).1 hbracket
    · rw [parseArray_printArray (child :: children) (List.cons_ne_nil _ _) h (depth + 1)
        (by rw [List.length_cons] at hfuel; omega)]
      rfl
  | object [] =>
    have hopen : "\x7b\n".toList = ['\x7b', '\n'] := rfl
    have hskip : skip ('\n' :: (tabs (depth - 1) ++ '\x7d' :: rest)) = '\x7d' :: rest :=
      skip_append (List.forall_mem_cons.mpr ⟨by decide, white_tabs (depth - 1)⟩) (by decide) rest
    rw [printValue, hopen]
    simp only [List.append_assoc, List.cons_append, List.nil_append]
    rw [parseValue, hskip]
    rfl
  | object ((name, child) :: children) =>
    rw [printValue_object_append] at hfuel ⊢
    obtain ⟨cs, hquote⟩ : ∃ cs, skip ('\n' :: (printObject ((name, child) :: children) (depth + 1) ++
        (tabs depth ++ '\x7d' :: rest))) = '"' :: cs := by
      rw [printObject_cons_append]
      exact ⟨_, skip_append (List.forall_mem_cons.mpr ⟨by decide, white_tabs (depth + 1)⟩) (by decide) _⟩
    rw [parseValue]
    rw [hquote]
    show (parseObject render fuel ('"' :: cs)).map _ = _
    rw [← hquote, parseObject_skip, parseObject_newline,
      parseObject_printObject ((name, child) :: children) (List.cons_ne_nil _ _) h (depth + 1) depth
        (by rw [List.length_cons, List.length_cons] at hfuel; omega)]
    rfl

theorem parseArray_printArray (children : List Json) (hne : children ≠ []) (h : ReadableArray render children)
    (depth : Nat) {fuel : Nat} {rest : Text}
    (hfuel : 2 * (printArray children depth ++ ']' :: rest).length + 1 < fuel) :
    parseArray render fuel (printArray children depth ++ ']' :: rest) = some (children, rest) := by
  obtain ⟨fuel, rfl⟩ : ∃ k, fuel = k + 1 := ⟨fuel - 1, by omega⟩
  match children with
  | [] => exact absurd rfl hne
  | child :: children =>
    rw [printArray_cons_append] at hfuel ⊢
    have hvalue : parseValue render fuel (printValue child depth ++ arrayTail children depth rest) =
        some (child, arrayTail children depth rest) :=
      parseValue_printValue child h.1 depth (breaks_arrayTail children depth rest) (by omega)
    rw [parseArray, skip_printValue h.1, hvalue]
    match children with
    | [] => rfl
    | child' :: children =>
      have hcomma : skip (arrayTail (child' :: children) depth rest) =
          ',' :: ' ' :: (printArray (child' :: children) depth ++ ']' :: rest) := skip_cons (by decide) _
      have hlen : (arrayTail (child' :: children) depth rest).length =
          (printArray (child' :: children) depth ++ ']' :: rest).length + 2 := rfl
      rw [List.length_append, hlen] at hfuel
      dsimp only
      rw [hcomma]
      show (parseArray render fuel (' ' :: (printArray (child' :: children) depth ++ ']' :: rest))).map _ = _
      rw [parseArray_space, parseArray_printArray (child' :: children) (List.cons_ne_nil _ _) h.2 depth (by omega)]
      rfl

theorem parseObject_printObject (ms : List (Text × Json)) (hne : ms ≠ []) (h : ReadableObject render ms)
    (depth d : Nat) {fuel : Nat} {rest : Text}
    (hfuel : 2 * (printObject ms depth ++ (tabs d ++ '\x7d' :: rest)).length + 1 < fuel) :
    parseObject render fuel (printObject ms depth ++ (tabs d ++ '\x7d' :: rest)) = some (ms, rest) := by
  obtain ⟨fuel, rfl⟩ : ∃ k, fuel = k + 1 := ⟨fuel - 1, by omega⟩
  match ms with
  | [] => exact absurd rfl hne
  | (name, child) :: ms =>
    obtain ⟨hname, hchild, hrest⟩ := h
    have hlen : (printValue child depth ++ objectTail ms depth d rest).length <
        (printObject ((name, child) :: ms) depth ++ (tabs d ++ '\x7d' :: rest)).length := by
      rw [printObject_cons_append]
      simp only [List.length_append, List.length_cons]
      omega
    have hvalue : parseValue render fuel (printValue child depth ++ objectTail ms depth d rest) =
        some (child, objectTail ms depth d rest) :=
      parseValue_printValue child hchild depth (breaks_objectTail ms depth d rest) (by omega)
    rw [parseObject_printed_cons hname hchild hvalue]
    match ms with
    | [] =>
      have hend : skip (objectTail [] depth d rest) = '\x7d' :: rest :=
        skip_append (List.forall_mem_cons.mpr ⟨by decide, white_tabs d⟩) (by decide) rest
      rw [membersBehind, hend]
      rfl
    | m :: ms =>
      have hcomma : skip (objectTail (m :: ms) depth d rest) =
          ',' :: '\n' :: (printObject (m :: ms) depth ++ (tabs d ++ '\x7d' :: rest)) := skip_cons (by decide) _
      have hshort : (objectTail (m :: ms) depth d rest).length =
          (printObject (m :: ms) depth ++ (tabs d ++ '\x7d' :: rest)).length + 2 := rfl
      rw [List.length_append, hshort] at hlen
      rw [membersBehind, hcomma]
      show (parseObject render fuel ('\n' :: (printObject (m :: ms) depth ++ (tabs d ++ '\x7d' :: rest)))).map _ = _
      rw [parseObject_newline, parseObject_printObject (m :: ms) (List.cons_ne_nil _ _) hrest depth d (by omega)]
      rfl

end

theorem cJSONParse_cJSONPrint (item : Json) (h : Readable render item) :
    cJSONParse render (cJSONPrint item) = some item := by
  have hskip := skip_printValue h 0 []
  have hparse : parseValue render (2 * (printValue item 0).length + 1) (printValue item 0 ++ []) = some (item, []) :=
    parseValue_printValue item h 0 breaks_nil (by rw [List.append_nil]; omega)
  rw [List.append_nil] at hskip hparse
  rw [cJSONParse, cJSONPrint, hskip, hparse]
  rfl

/-! ## A node that was read -/

mutual

/-- The texts of the numbers of a node. -/
def numbersOf : Json → List Text
  | number printed => [printed]
  | array child => numbersOfArray child
  | object child => numbersOfObject child
  | _ => []

def numbersOfArray : List Json → List Text
  | [] => []
  | child :: children => numbersOf child ++ numbersOfArray children

def numbersOfObject : List (Text × Json) → List Text
  | [] => []
  | (_, child) :: children => numbersOf child ++ numbersOfObject children

end

/-- The text is a string of C. -/
def Unbroken (s : Text) : Prop := Char.ofNat 0 ∉ s

theorem Unbroken.of_subset {s t : Text} (h : Unbroken s) (hsub : ∀ c ∈ t, c ∈ s) :
    Unbroken t := fun hmem => h (hsub _ hmem)

theorem Unbroken.tail {c : Char} {s : Text} (h : Unbroken (c :: s)) : Unbroken s :=
  h.of_subset fun _ => List.mem_cons_of_mem c

theorem Unbroken.drop {s : Text} (h : Unbroken s) (n : Nat) :
    Unbroken (s.drop n) := h.of_subset fun _ => List.mem_of_mem_drop

theorem Unbroken.cons {c : Char} {s : Text} (hc : c ≠ Char.ofNat 0) (h : Unbroken s) : Unbroken (c :: s) := by
  unfold Unbroken
  rw [List.mem_cons, not_or]
  exact ⟨Ne.symm hc, h⟩

theorem Unbroken.append {s t : Text} (hs : Unbroken s) (ht : Unbroken t) : Unbroken (s ++ t) := by
  unfold Unbroken
  rw [List.mem_append, not_or]
  exact ⟨hs, ht⟩

theorem unbroken_dropWhile (p : Char → Bool) {s : Text} (h : Unbroken s) : Unbroken (s.dropWhile p) :=
  h.of_subset fun _ hmem => (List.dropWhile_sublist p).mem hmem

theorem ofNat_ne_zero {n : Nat} (hpos : 0 < n) (hlt : n < 0xD800) : Char.ofNat n ≠ Char.ofNat 0 := by
  intro heq
  have hvalid : n.isValidChar := Or.inl hlt
  have htoNat : (Char.ofNat n).toNat = n := by
    rw [Char.ofNat, dif_pos hvalid]
    rfl
  rw [heq] at htoNat
  exact Nat.ne_of_lt hpos htoNat

theorem ofNat_next_ne_zero (x : Nat) : Char.ofNat ((x ||| 0x80) &&& 0xBF) ≠ Char.ofNat 0 := by
  have hbit : ((x ||| 0x80) &&& 0xBF).testBit 7 = Bool.true := by
    rw [Nat.testBit_and, Nat.testBit_or]
    have hmark : Nat.testBit 0x80 7 = Bool.true := rfl
    have hmask : Nat.testBit 0xBF 7 = Bool.true := rfl
    rw [hmark, hmask, Bool.or_true, Bool.and_true]
  have hle : (x ||| 0x80) &&& 0xBF ≤ 0xBF := Nat.and_le_right
  apply ofNat_ne_zero _ (by omega)
  apply Nat.pos_of_ne_zero
  intro hzero
  rw [hzero, Nat.zero_testBit] at hbit
  exact Bool.false_ne_true hbit

theorem ofNat_first_ne_zero {mark x : Nat} (hmark : 0 < mark) (hlt : mark < 256) (hx : x < 256) :
    Char.ofNat (mark ||| x) ≠ Char.ofNat 0 := by
  have hle : mark ≤ mark ||| x := Nat.left_le_or
  have hor : mark ||| x < 2 ^ 8 := Nat.or_lt_two_pow hlt hx
  exact ofNat_ne_zero (by omega) (by omega)

theorem unbroken_utf8 {uc : Nat} (hpos : uc ≠ 0) (hlt : uc < 0x200000) : Unbroken (utf8 uc) := by
  have hnil : Unbroken [] := List.not_mem_nil
  unfold utf8
  simp only [Nat.shiftRight_eq_div_pow]
  split
  · exact hnil.cons (ofNat_ne_zero (by omega) (by omega))
  · split
    · exact (hnil.cons (ofNat_next_ne_zero _)).cons (ofNat_first_ne_zero (by decide) (by decide) (by omega))
    · split
      · exact ((hnil.cons (ofNat_next_ne_zero _)).cons (ofNat_next_ne_zero _)).cons
          (ofNat_first_ne_zero (by decide) (by decide) (by omega))
      · exact (((hnil.cons (ofNat_next_ne_zero _)).cons (ofNat_next_ne_zero _)).cons (ofNat_next_ne_zero _)).cons
          (ofNat_first_ne_zero (by decide) (by decide) (by omega))

theorem parseHex4_lt (a b c d : Char) : parseHex4 a b c d < 0x10000 := by
  have hdigit {c : Char} {n : Nat} (h : hexDigit c = some n) : n < 16 := by
    unfold hexDigit at h
    simp only [Char.le_def, UInt32.le_iff_toNat_le] at h
    split at h
    · next hc =>
      obtain rfl := Option.some.inj h
      have : c.toNat ≤ 57 := hc.2
      show c.toNat - 48 < 16
      omega
    · split at h
      · next hc =>
        obtain rfl := Option.some.inj h
        have : c.toNat ≤ 70 := hc.2
        show 10 + c.toNat - 65 < 16
        omega
      · split at h
        · next hc =>
          obtain rfl := Option.some.inj h
          have : c.toNat ≤ 102 := hc.2
          show 10 + c.toNat - 97 < 16
          omega
        · cases h
  unfold parseHex4
  split
  · next ha hb hc hd =>
    have := hdigit ha
    have := hdigit hb
    have := hdigit hc
    have := hdigit hd
    omega
  · decide

theorem unbroken_stringBody (s : Text) (h : Unbroken s) : Unbroken (stringBody s).1 ∧ Unbroken (stringBody s).2 := by
  have hnil : Unbroken [] := List.not_mem_nil
  have hescape {c : Char} (hc : c ≠ Char.ofNat 0) : unescape c ≠ Char.ofNat 0 := by
    unfold unescape
    split <;> first | decide | exact hc
  fun_induction stringBody s with
  | case1 => exact ⟨hnil, hnil⟩
  | case2 cs => exact ⟨hnil, h.tail⟩
  | case3 a b c d cs uc hskip ih => exact ih (h.drop 6)
  | case4 a b c d uc hskip hhigh e f g i cs' uc2 hlow ih => exact ih (h.drop 12)
  | case5 a b c d uc hskip hhigh e f g i cs' uc2 hlow str rest hbody ih =>
    have hrest := ih (h.drop 12)
    rw [hbody] at hrest
    have hpair : 0x10000 + ((uc &&& 0x3FF) <<< 10 ||| uc2 &&& 0x3FF) < 0x200000 := by
      have hleft : (uc &&& 0x3FF) <<< 10 < 2 ^ 20 := by
        have : uc &&& 0x3FF ≤ 0x3FF := Nat.and_le_right
        rw [Nat.shiftLeft_eq]
        omega
      have hright : uc2 &&& 0x3FF < 2 ^ 20 := Nat.lt_of_le_of_lt Nat.and_le_right (by decide)
      have := Nat.or_lt_two_pow hleft hright
      omega
    exact ⟨(unbroken_utf8 (by omega) hpair).append hrest.1, hrest.2⟩
  | case6 a b c d cs uc hskip hhigh hother ih => exact ih (h.drop 6)
  | case7 a b c d cs uc hskip hhigh str rest hbody ih =>
    have hrest := ih (h.drop 6)
    rw [hbody] at hrest
    have huc : uc < 0x10000 := parseHex4_lt a b c d
    rw [not_or] at hskip
    exact ⟨(unbroken_utf8 hskip.2 (by omega)).append hrest.1, hrest.2⟩
  | case8 => exact ⟨hnil, hnil⟩
  | case9 => exact ⟨hnil, hnil⟩
  | case10 c cs _ _ str rest hbody ih =>
    have hrest := ih (h.drop 2)
    rw [hbody] at hrest
    have hc : c ≠ Char.ofNat 0 := fun heq => h (by simp [heq])
    exact ⟨hrest.1.cons (hescape hc), hrest.2⟩
  | case11 c cs _ _ _ _ _ str rest hbody ih =>
    have hrest := ih h.tail
    rw [hbody] at hrest
    have hc : c ≠ Char.ofNat 0 := fun heq => h (by simp [heq])
    exact ⟨hrest.1.cons hc, hrest.2⟩

theorem unbroken_skip {s : Text} (h : Unbroken s) : Unbroken (skip s) := unbroken_dropWhile _ h

theorem unbroken_skipNumber {s : Text} (h : Unbroken s) : Unbroken (skipNumber s) := by
  have hdigits {s : Text} (h : Unbroken s) : Unbroken (skipDigits s) := unbroken_dropWhile _ h
  have hsign {s : Text} (h : Unbroken s) : Unbroken (skipSign s) := by
    unfold skipSign
    split
    · exact h.tail
    · exact h
  have hpositive {s : Text} (h : Unbroken s) : Unbroken (skipPositive s) := by
    unfold skipPositive
    split
    · split
      · exact hdigits h.tail
      · exact h
    · exact h
  have hinteger {s : Text} (h : Unbroken s) : Unbroken (skipInteger s) := by
    unfold skipInteger
    split
    · exact hpositive h.tail
    · exact hpositive h
  have hfraction {s : Text} (h : Unbroken s) : Unbroken (skipFraction s) := by
    unfold skipFraction
    split
    · split
      · exact hdigits h.tail.tail
      · exact h
    · exact h
  have hplusMinus {s : Text} (h : Unbroken s) : Unbroken (skipPlusMinus s) := by
    unfold skipPlusMinus
    split
    · exact h.tail
    · exact hsign h
  unfold skipNumber skipExponent
  have hbehind := hfraction (hinteger (hsign h))
  split
  · next c cs heq =>
    rw [heq] at hbehind
    split
    · exact hdigits (hplusMinus hbehind.tail)
    · exact hbehind
  · exact h.of_subset fun _ => (List.not_mem_nil · |>.elim)

/-- What the parsers give from a string of C can be printed and read, where its numbers can. -/
structure ParsesReadable (render : Text → Text) (fuel : Nat) : Prop where
  value : ∀ {s v rest}, Unbroken s → parseValue render fuel s = some (v, rest) →
    Unbroken rest ∧ ((∀ printed ∈ numbersOf v, Settled render printed) → Readable render v)
  array : ∀ {s vs rest}, Unbroken s → parseArray render fuel s = some (vs, rest) →
    Unbroken rest ∧ ((∀ printed ∈ numbersOfArray vs, Settled render printed) → ReadableArray render vs)
  object : ∀ {s vs rest}, Unbroken s → parseObject render fuel s = some (vs, rest) →
    Unbroken rest ∧ ((∀ printed ∈ numbersOfObject vs, Settled render printed) → ReadableObject render vs)

variable {fuel : Nat} {s rest : Text}

theorem ParsesReadable.value_succ (ih : ParsesReadable render fuel) {v : Json} (hs : Unbroken s)
    (h : parseValue render (fuel + 1) s = some (v, rest)) :
    Unbroken rest ∧ ((∀ printed ∈ numbersOf v, Settled render printed) → Readable render v) := by
  unfold parseValue at h
  split at h
  · cases h
    exact ⟨hs.drop 4, fun _ => trivial⟩
  · cases h
    exact ⟨hs.drop 5, fun _ => trivial⟩
  · cases h
    exact ⟨hs.drop 4, fun _ => trivial⟩
  · cases h
    exact (unbroken_stringBody _ hs.tail).symm.imp id fun hstr _ => hstr
  · have hskip := unbroken_skip hs.tail
    split at h
    · next cs' heq =>
      cases h
      rw [heq] at hskip
      exact ⟨hskip.tail, fun _ => trivial⟩
    · obtain ⟨⟨child, rest'⟩, hparse, heq⟩ := Option.map_eq_some_iff.mp h
      cases heq
      exact ih.array hskip hparse
  · have hskip := unbroken_skip hs.tail
    split at h
    · next cs' heq =>
      cases h
      rw [heq] at hskip
      exact ⟨hskip.tail, fun _ => trivial⟩
    · obtain ⟨⟨child, rest'⟩, hparse, heq⟩ := Option.map_eq_some_iff.mp h
      cases heq
      exact ih.object hskip hparse
  · split at h
    · cases h
      exact ⟨unbroken_skipNumber hs, fun hnumbers => hnumbers _ (List.mem_singleton_self _)⟩
    · cases h
  · cases h

theorem ParsesReadable.array_succ (ih : ParsesReadable render fuel) {vs : List Json} (hs : Unbroken s)
    (h : parseArray render (fuel + 1) s = some (vs, rest)) :
    Unbroken rest ∧ ((∀ printed ∈ numbersOfArray vs, Settled render printed) → ReadableArray render vs) := by
  unfold parseArray at h
  split at h
  · cases h
  · next child r hvalue =>
    obtain ⟨hr, hchild⟩ := ih.value (unbroken_skip hs) hvalue
    have hskip := unbroken_skip hr
    split at h
    · next cs heq =>
      rw [heq] at hskip
      obtain ⟨⟨vs', rest'⟩, hparse, heq⟩ := Option.map_eq_some_iff.mp h
      cases heq
      obtain ⟨hrest, hchildren⟩ := ih.array hskip.tail hparse
      refine ⟨hrest, fun hnumbers => ?_⟩
      obtain ⟨hfirst, hothers⟩ := List.forall_mem_append.mp hnumbers
      exact ⟨hchild hfirst, hchildren hothers⟩
    · next cs heq =>
      rw [heq] at hskip
      cases h
      exact ⟨hskip.tail, fun hnumbers => ⟨hchild (List.forall_mem_append.mp hnumbers).1, trivial⟩⟩
    · cases h

theorem ParsesReadable.object_succ (ih : ParsesReadable render fuel) {vs : List (Text × Json)} (hs : Unbroken s)
    (h : parseObject render (fuel + 1) s = some (vs, rest)) :
    Unbroken rest ∧ ((∀ printed ∈ numbersOfObject vs, Settled render printed) → ReadableObject render vs) := by
  have hstring {s name r : Text} (hs : Unbroken s) (h : parseString s = some (name, r)) :
      Unbroken name ∧ Unbroken r := by
    unfold parseString at h
    split at h
    · next cs =>
      have hbody := unbroken_stringBody cs hs.tail
      rwa [Option.some.inj h] at hbody
    · cases h
  unfold parseObject at h
  split at h
  · cases h
  · next name r hname =>
    obtain ⟨hunbroken, hr⟩ := hstring (unbroken_skip hs) hname
    have hskip := unbroken_skip hr
    split at h
    · next cs heq =>
      rw [heq] at hskip
      split at h
      · cases h
      · next child r' hvalue =>
        obtain ⟨hr', hchild⟩ := ih.value (unbroken_skip hskip.tail) hvalue
        have hskip' := unbroken_skip hr'
        split at h
        · next cs' heq' =>
          rw [heq'] at hskip'
          obtain ⟨⟨vs', rest'⟩, hparse, heq⟩ := Option.map_eq_some_iff.mp h
          cases heq
          obtain ⟨hrest, hchildren⟩ := ih.object hskip'.tail hparse
          refine ⟨hrest, fun hnumbers => ?_⟩
          obtain ⟨hfirst, hothers⟩ := List.forall_mem_append.mp hnumbers
          exact ⟨hunbroken, hchild hfirst, hchildren hothers⟩
        · next cs' heq' =>
          rw [heq'] at hskip'
          cases h
          exact ⟨hskip'.tail, fun hnumbers => ⟨hunbroken, hchild (List.forall_mem_append.mp hnumbers).1, trivial⟩⟩
        · cases h
    · cases h

theorem parsesReadable (fuel : Nat) : ParsesReadable render fuel := by
  induction fuel with
  | zero =>
    exact
      { value := fun _ h => absurd h (by simp [parseValue])
        array := fun _ h => absurd h (by simp [parseArray])
        object := fun _ h => absurd h (by simp [parseObject]) }
  | succ fuel ih => exact { value := ih.value_succ, array := ih.array_succ, object := ih.object_succ }

/-- **A node that was read, printed and read again is the same**, whatever the text it was read from: with any white
space, escapes, bytes behind its end, or a string that the end of the text cuts off. -/
theorem cJSONPrint_reread {value : Text} {item : Json} (hvalue : Unbroken value)
    (hread : cJSONParse render value = some item) (hnumbers : ∀ printed ∈ numbersOf item, Settled render printed) :
    cJSONParse render (cJSONPrint item) = some item := by
  obtain ⟨⟨v, rest⟩, hparse, rfl⟩ := Option.map_eq_some_iff.mp hread
  exact cJSONParse_cJSONPrint v (((parsesReadable _).value (unbroken_skip hvalue) hparse).2 hnumbers)

/-- Escapes, white space, and bytes behind the end. -/
def looseText : Text := " [\x7b\"a\\u0022\" :[-12 ]\x7d, \"c\\n\"] x".toList

theorem cJSONPrint_reread_loose :
    let item := array [object [("a\"".toList, array [number (decimal (-12))])], string "c\n".toList]
    cJSONParse id looseText = some item ∧ cJSONParse id (cJSONPrint item) = some item := by
  intro item
  have hunbroken : Unbroken looseText := by
    unfold Unbroken
    decide
  have htext : looseText =
      [' ', '[', '\x7b', '"', 'a', '\\', 'u', '0', '0', '2', '2', '"', ' ', ':', '[', '-', '1', '2', ' ', ']',
    '\x7d', ',', ' ', '"', 'c', '\\', 'n', '"', ']', ' ', 'x'] := rfl
  have hnumber : decimal (-12) = ['-', '1', '2'] := rfl
  have hread : cJSONParse id looseText = some item := by
    unfold cJSONParse
    simp [item, htext, hnumber, skip, parseValue, parseArray, parseObject, parseString, stringBody, unescape, parseHex4,
      hexDigit, utf8, skipNumber, skipSign, skipInteger, skipPositive, skipDigits, skipFraction, skipExponent, isDigit]
  exact ⟨hread, cJSONPrint_reread hunbroken hread (List.forall_mem_singleton.mpr (settled_decimal rfl))⟩

end

end NXTServices.Json
