import NXTServices.Text
import Mathlib.Tactic.Common

/-!
# `cJSON`

* `Json` : the nodes, each with the text or the children that later calls read;
* `cJSONParse` : the parser, with the texts its numbers print as given by a parameter;
* `cJSONPrint` : the printer;
* `getObjectItem`, `copyCJSON`, `getCJSONInt`, `getSatoshiObj` : the readers;
* `cJSONParse_eq` : the fuel of the parser is enough.
-/

namespace NXTServices

/-- A `cJSON` node. A number carries the text `print_number` writes for its `double`. -/
inductive Json where
  | null
  | false
  | true
  | number (printed : Text)
  | string (valuestring : Text)
  | array (child : List Json)
  | object (child : List (Text × Json))

namespace Json

/-! ## Reading a string -/

def hexDigit (c : Char) : Option Nat :=
  if '0' ≤ c ∧ c ≤ '9' then some (c.toNat - '0'.toNat)
  else if 'A' ≤ c ∧ c ≤ 'F' then some (10 + c.toNat - 'A'.toNat)
  else if 'a' ≤ c ∧ c ≤ 'f' then some (10 + c.toNat - 'a'.toNat)
  else none

/-- Four hexadecimal digits, or `0`. -/
def parseHex4 (a b c d : Char) : Nat :=
  match hexDigit a, hexDigit b, hexDigit c, hexDigit d with
  | some a, some b, some c, some d => ((a * 16 + b) * 16 + c) * 16 + d
  | _, _, _, _ => 0

/-- The bytes of a code point. -/
def utf8 (uc : Nat) : Text :=
  if uc < 0x80 then [Char.ofNat uc]
  else if uc < 0x800 then [Char.ofNat (0xC0 ||| uc >>> 6), Char.ofNat ((uc ||| 0x80) &&& 0xBF)]
  else if uc < 0x10000 then
    [Char.ofNat (0xE0 ||| uc >>> 12), Char.ofNat ((uc >>> 6 ||| 0x80) &&& 0xBF),
      Char.ofNat ((uc ||| 0x80) &&& 0xBF)]
  else
    [Char.ofNat (0xF0 ||| uc >>> 18), Char.ofNat ((uc >>> 12 ||| 0x80) &&& 0xBF),
      Char.ofNat ((uc >>> 6 ||| 0x80) &&& 0xBF), Char.ofNat ((uc ||| 0x80) &&& 0xBF)]

/-- The character of a one-letter escape. -/
def unescape (c : Char) : Char :=
  match c with
  | 'b' => Char.ofNat 8
  | 'f' => Char.ofNat 12
  | 'n' => '\n'
  | 'r' => '\r'
  | 't' => '\t'
  | c => c

/-- The string up to its closing quote, unescaped, and what follows. A string without closing quote
goes to the end of the text; a text is taken to end where an escape runs over its end. -/
def stringBody : Text → Text × Text
  | [] => ([], [])
  | '"' :: cs => ([], cs)
  | '\\' :: 'u' :: a :: b :: c :: d :: cs =>
    let uc := parseHex4 a b c d
    if (0xDC00 ≤ uc ∧ uc ≤ 0xDFFF) ∨ uc = 0 then stringBody cs
    else if 0xD800 ≤ uc ∧ uc ≤ 0xDBFF then
      match cs with
      | '\\' :: 'u' :: e :: f :: g :: h :: cs' =>
        let uc2 := parseHex4 e f g h
        if uc2 < 0xDC00 ∨ 0xDFFF < uc2 then stringBody cs'
        else
          let (str, rest) := stringBody cs'
          (utf8 (0x10000 + ((uc &&& 0x3FF) <<< 10 ||| uc2 &&& 0x3FF)) ++ str, rest)
      | cs => stringBody cs
    else
      let (str, rest) := stringBody cs
      (utf8 uc ++ str, rest)
  | ['\\'] => ([], [])
  | '\\' :: 'u' :: _ => ([], [])
  | '\\' :: c :: cs => let (str, rest) := stringBody cs; (unescape c :: str, rest)
  | c :: cs => let (str, rest) := stringBody cs; (c :: str, rest)

def parseString : Text → Option (Text × Text)
  | '"' :: cs => some (stringBody cs)
  | _ => none

/-! ## Reading a number -/

def skipDigits (s : Text) : Text := s.dropWhile isDigit

def skipSign : Text → Text
  | '-' :: cs => cs
  | s => s

def skipPlusMinus : Text → Text
  | '+' :: cs => cs
  | s => skipSign s

/-- Digits that do not start with `0`. -/
def skipPositive : Text → Text
  | c :: cs => if '1' ≤ c ∧ c ≤ '9' then skipDigits cs else c :: cs
  | [] => []

/-- At most one leading `0`, then the digits up to the point. -/
def skipInteger : Text → Text
  | '0' :: cs => skipPositive cs
  | s => skipPositive s

def skipFraction : Text → Text
  | '.' :: c :: cs => if isDigit c then skipDigits cs else '.' :: c :: cs
  | s => s

def skipExponent : Text → Text
  | c :: cs => if c = 'e' ∨ c = 'E' then skipDigits (skipPlusMinus cs) else c :: cs
  | [] => []

/-- The text after a number. -/
def skipNumber (s : Text) : Text := skipExponent (skipFraction (skipInteger (skipSign s)))

/-! ## Parsing -/

/-- What `skip` jumps over. -/
def skip (s : Text) : Text := s.dropWhile fun c => c.toNat ≤ 32

section Parse
variable (render : Text → Text)

mutual

/-- `render` gives the text that prints a number node made from a number text, that is the
arithmetic on `double` of `parse_number` and `print_number`. -/
def parseValue : Nat → Text → Option (Json × Text)
  | 0, _ => none
  | fuel + 1, value =>
    match value with
    | 'n' :: 'u' :: 'l' :: 'l' :: cs => some (null, cs)
    | 'f' :: 'a' :: 'l' :: 's' :: 'e' :: cs => some (false, cs)
    | 't' :: 'r' :: 'u' :: 'e' :: cs => some (true, cs)
    | '"' :: cs => let (str, rest) := stringBody cs; some (string str, rest)
    | '[' :: cs =>
      match skip cs with
      | ']' :: cs => some (array [], cs)
      | cs => (parseArray fuel cs).map fun (child, rest) => (array child, rest)
    | '{' :: cs =>
      match skip cs with
      | '}' :: cs => some (object [], cs)
      | cs => (parseObject fuel cs).map fun (child, rest) => (object child, rest)
    | c :: cs =>
      if c = '-' ∨ isDigit c then
        let rest := skipNumber (c :: cs)
        some (number (render ((c :: cs).take ((c :: cs).length - rest.length))), rest)
      else none
    | [] => none

/-- The elements of an array and what follows its closing bracket. -/
def parseArray : Nat → Text → Option (List Json × Text)
  | 0, _ => none
  | fuel + 1, value =>
    match parseValue fuel (skip value) with
    | none => none
    | some (child, rest) =>
      match skip rest with
      | ',' :: cs => (parseArray fuel cs).map fun (children, rest) => (child :: children, rest)
      | ']' :: cs => some ([child], cs)
      | _ => none

/-- The members of an object and what follows its closing brace. -/
def parseObject : Nat → Text → Option (List (Text × Json) × Text)
  | 0, _ => none
  | fuel + 1, value =>
    match parseString (skip value) with
    | none => none
    | some (name, rest) =>
      match skip rest with
      | ':' :: cs =>
        match parseValue fuel (skip cs) with
        | none => none
        | some (child, rest) =>
          match skip rest with
          | ',' :: cs =>
            (parseObject fuel cs).map fun (children, rest) => ((name, child) :: children, rest)
          | '}' :: cs => some ([(name, child)], cs)
          | _ => none
      | _ => none

end

/-- What follows the value is not looked at. -/
def cJSONParse (value : Text) : Option Json :=
  (parseValue render (2 * value.length + 1) (skip value)).map Prod.fst

end Parse

/-! ## Printing -/

/-- One character of a printed string. -/
def escapeChar (c : Char) : Text :=
  if 31 < c.toNat ∧ c ≠ '"' ∧ c ≠ '\\' then [c]
  else if c = '\\' then "\\\\".toList
  else if c = '"' then "\\\"".toList
  else if c.toNat = 8 then "\\b".toList
  else if c.toNat = 12 then "\\f".toList
  else if c = '\n' then "\\n".toList
  else if c = '\r' then "\\r".toList
  else if c = '\t' then "\\t".toList
  else "\\u00".toList ++ [Nat.digitChar (c.toNat / 16), Nat.digitChar (c.toNat % 16)]

def printString (str : Text) : Text := '"' :: str.flatMap escapeChar ++ ['"']

def tabs (n : Nat) : Text := List.replicate n '\t'

mutual

def printValue : Json → Nat → Text
  | null, _ => "null".toList
  | false, _ => "false".toList
  | true, _ => "true".toList
  | number printed, _ => printed
  | string str, _ => printString str
  | array child, depth => '[' :: printArray child (depth + 1) ++ [']']
  | object [], depth => "\x7b\n".toList ++ tabs (depth - 1) ++ ['}']
  | object child, depth => "\x7b\n".toList ++ printObject child (depth + 1) ++ tabs depth ++ ['}']

def printArray : List Json → Nat → Text
  | [], _ => []
  | [child], depth => printValue child depth
  | child :: children, depth => printValue child depth ++ ", ".toList ++ printArray children depth

def printObject : List (Text × Json) → Nat → Text
  | [], _ => []
  | [(name, child)], depth =>
    tabs depth ++ printString name ++ ":\t".toList ++ printValue child depth ++ ['\n']
  | (name, child) :: children, depth =>
    tabs depth ++ printString name ++ ":\t".toList ++ printValue child depth ++ ",\n".toList ++
      printObject children depth

end

def cJSONPrint (item : Json) : Text := printValue item 0

/-! ## Reading the nodes -/

def tolower (c : Char) : Char := if 'A' ≤ c ∧ c ≤ 'Z' then Char.ofNat (c.toNat + 32) else c

/-- The first child of that name, whatever the case of its letters. The children of an array have
no name. -/
def getObjectItem (json : Json) (name : Text) : Option Json :=
  match json with
  | object child => (child.find? fun m => m.1.map tolower == name.map tolower).map Prod.snd
  | _ => none

/-- The text without the quotes around it. -/
def stripquotes (str : Text) : Text :=
  match str with
  | '"' :: cs => if cs.getLast? = some '"' then cs.dropLast else str
  | _ => str

/-- The text of a node, without the quotes around a string; its escapes stay. -/
def copyCJSON (obj : Option Json) : Text :=
  match obj with
  | none => []
  | some obj => stripquotes (cJSONPrint obj)

/-- The children of a node: `cJSON_GetArraySize` counts them, `cJSON_GetArrayItem` picks one. -/
def items : Json → List Json
  | array child => child
  | object child => child.map Prod.snd
  | _ => []

def getCJSONInt (json : Json) (field : Text) : Int :=
  match getObjectItem json field with
  | none => 0
  | some numjson => atol (copyCJSON (some numjson))

/-- The value of a byte as a `char`. -/
def charVal (c : Char) : Int := if c.toNat < 128 then c.toNat else c.toNat - 256

def satoshiLoop : Text → BitVec 64 → BitVec 64 → BitVec 64
  | [], _, satoshis => satoshis
  | c :: cs, mult, satoshis =>
    satoshiLoop cs (mult * 10) (satoshis + mult * BitVec.ofInt 64 (charVal c - charVal '0'))

def getSatoshiObj (json : Json) (field : Text) : BitVec 64 :=
  satoshiLoop (copyCJSON (getObjectItem json field)).reverse 1 0

/-! ## The fuel of the parser -/

theorem stringBody_length (s : Text) : (stringBody s).2.length ≤ s.length := by
  fun_induction stringBody s
  case case1 | case8 | case9 => exact Nat.zero_le _
  case case2 => exact Nat.le_succ _
  case case3 ih | case4 ih | case6 ih =>
    simp only [List.length_cons]
    omega
  case case5 hstr ih | case7 hstr ih | case10 hstr ih | case11 hstr ih =>
    simp only [hstr, List.length_cons] at ih ⊢
    omega

theorem dropWhile_length (p : Char → Bool) (s : Text) : (s.dropWhile p).length ≤ s.length :=
  (List.dropWhile_suffix p).length_le

theorem skip_length (s : Text) : (skip s).length ≤ s.length := dropWhile_length _ s

theorem skipDigits_length (s : Text) : (skipDigits s).length ≤ s.length := dropWhile_length _ s

theorem skipSign_length (s : Text) : (skipSign s).length ≤ s.length := by
  unfold skipSign
  split <;> simp

theorem skipPlusMinus_length (s : Text) : (skipPlusMinus s).length ≤ s.length := by
  unfold skipPlusMinus
  split
  · simp
  · exact skipSign_length s

theorem skipPositive_length (s : Text) : (skipPositive s).length ≤ s.length := by
  cases s with
  | nil => exact le_rfl
  | cons c cs =>
    have := skipDigits_length cs
    rw [skipPositive]
    split <;> simp
    omega

theorem skipInteger_length (s : Text) : (skipInteger s).length ≤ s.length := by
  unfold skipInteger
  split
  · next cs => exact (skipPositive_length cs).trans (Nat.le_succ _)
  · exact skipPositive_length s

theorem skipFraction_length (s : Text) : (skipFraction s).length ≤ s.length := by
  unfold skipFraction
  split
  · next c cs =>
    have := skipDigits_length cs
    split <;> simp
    omega
  · exact le_rfl

theorem skipExponent_length (s : Text) : (skipExponent s).length ≤ s.length := by
  cases s with
  | nil => exact le_rfl
  | cons c cs =>
    have := (skipDigits_length (skipPlusMinus cs)).trans (skipPlusMinus_length cs)
    rw [skipExponent]
    split <;> simp
    omega

theorem one_le_of_zero_le {c : Char} (h : '0' ≤ c) (hne : c ≠ '0') : '1' ≤ c := by
  rw [Char.le_def, UInt32.le_iff_toNat_le] at h ⊢
  have : c.val.toNat ≠ '0'.val.toNat := fun heq => hne (Char.ext (UInt32.toNat_inj.mp heq))
  change 48 ≤ c.val.toNat at h
  change c.val.toNat ≠ 48 at this
  show 49 ≤ c.val.toNat
  omega

/-- A number text has at least one character. -/
theorem skipNumber_length {c : Char} {cs : Text} (hc : c = '-' ∨ isDigit c) :
    (skipNumber (c :: cs)).length ≤ cs.length := by
  refine (skipExponent_length _).trans ((skipFraction_length _).trans ?_)
  rcases hc with rfl | hdigit
  · exact skipInteger_length cs
  · have hsign : skipSign (c :: cs) = c :: cs := by
      unfold skipSign
      split
      · next h => simp_all [isDigit]
      · rfl
    rw [hsign]
    unfold skipInteger
    split
    · next h => exact (List.cons.inj h).2 ▸ skipPositive_length _
    · next hzero =>
      have hne : c ≠ '0' := fun h => hzero cs (by rw [h])
      have hone : '1' ≤ c ∧ c ≤ '9' := by
        simp only [isDigit, Bool.and_eq_true, decide_eq_true_eq] at hdigit
        exact ⟨one_le_of_zero_le hdigit.1 hne, hdigit.2⟩
      simp only [skipPositive, hone, and_self, if_true]
      exact skipDigits_length cs

section Fuel
variable {render : Text → Text}

/-- Every parser consumes some of the text. -/
structure Consumes (render : Text → Text) (fuel : Nat) : Prop where
  value : ∀ {s v rest}, parseValue render fuel s = some (v, rest) → rest.length < s.length
  array : ∀ {s vs rest}, parseArray render fuel s = some (vs, rest) → rest.length < s.length
  object : ∀ {s vs rest}, parseObject render fuel s = some (vs, rest) → rest.length < s.length

theorem Consumes.value_succ {fuel : Nat} (ih : Consumes render fuel) {s : Text} {v : Json} {rest : Text}
    (h : parseValue render (fuel + 1) s = some (v, rest)) : rest.length < s.length := by
  unfold parseValue at h
  split at h
  case h_1 | h_2 | h_3 =>
    cases h
    simp only [List.length_cons]
    omega
  case h_4 cs =>
    cases h
    exact Nat.lt_succ_of_le (stringBody_length cs)
  case h_5 cs =>
    have hskip := skip_length cs
    rw [List.length_cons]
    split at h
    · next heq =>
      cases h
      rw [heq, List.length_cons] at hskip
      omega
    · obtain ⟨⟨child, rest'⟩, hparse, heq⟩ := Option.map_eq_some_iff.mp h
      cases heq
      have hshorter := ih.array hparse
      omega
  case h_6 cs =>
    have hskip := skip_length cs
    rw [List.length_cons]
    split at h
    · next heq =>
      cases h
      rw [heq, List.length_cons] at hskip
      omega
    · obtain ⟨⟨child, rest'⟩, hparse, heq⟩ := Option.map_eq_some_iff.mp h
      cases heq
      have hshorter := ih.object hparse
      omega
  case h_7 c cs _ _ _ _ _ _ =>
    split at h
    · next hc =>
      cases h
      exact Nat.lt_succ_of_le (skipNumber_length hc)
    · cases h
  case h_8 => cases h

theorem Consumes.array_succ {fuel : Nat} (ih : Consumes render fuel) {s : Text} {vs : List Json}
    {rest : Text} (h : parseArray render (fuel + 1) s = some (vs, rest)) : rest.length < s.length := by
  have hskip := skip_length s
  unfold parseArray at h
  split at h
  · cases h
  · next child r hvalue =>
    have hr := skip_length r
    have := ih.value hvalue
    split at h
    · next cs heq =>
      obtain ⟨⟨vs', rest'⟩, hparse, heq'⟩ := Option.map_eq_some_iff.mp h
      cases heq'
      have := ih.array hparse
      rw [heq] at hr
      simp at hr
      omega
    · next cs heq => cases h; rw [heq] at hr; simp at hr; omega
    · cases h

theorem parseString_length {s name rest : Text} (h : parseString s = some (name, rest)) :
    rest.length < s.length := by
  unfold parseString at h
  split at h
  · next cs =>
    have := stringBody_length cs
    rw [Option.some.inj h] at this
    exact Nat.lt_succ_of_le this
  · cases h

theorem Consumes.object_succ {fuel : Nat} (ih : Consumes render fuel) {s : Text}
    {vs : List (Text × Json)} {rest : Text} (h : parseObject render (fuel + 1) s = some (vs, rest)) :
    rest.length < s.length := by
  have hskip := skip_length s
  unfold parseObject at h
  split at h
  · cases h
  · next name r hname =>
    have hr := skip_length r
    have := parseString_length hname
    split at h
    · next cs hcolon =>
      have hcs := skip_length cs
      rw [hcolon] at hr
      simp at hr
      split at h
      · cases h
      · next child r' hvalue =>
        have hr' := skip_length r'
        have := ih.value hvalue
        split at h
        · next cs' heq =>
          obtain ⟨⟨vs', rest'⟩, hparse, heq'⟩ := Option.map_eq_some_iff.mp h
          cases heq'
          have := ih.object hparse
          rw [heq] at hr'
          simp at hr'
          omega
        · next cs' heq => cases h; rw [heq] at hr'; simp at hr'; omega
        · cases h
    · cases h

theorem consumes (fuel : Nat) : Consumes render fuel := by
  induction fuel with
  | zero => exact ⟨nofun, nofun, nofun⟩
  | succ fuel ih => exact ⟨ih.value_succ, ih.array_succ, ih.object_succ⟩

/-- More fuel than twice the length changes nothing. -/
structure Stable (render : Text → Text) (fuel : Nat) : Prop where
  value : ∀ {s}, 2 * s.length < fuel → parseValue render fuel s = parseValue render (fuel + 1) s
  array : ∀ {s}, 2 * s.length + 1 < fuel → parseArray render fuel s = parseArray render (fuel + 1) s
  object : ∀ {s}, 2 * s.length + 1 < fuel → parseObject render fuel s = parseObject render (fuel + 1) s

theorem Stable.value_succ {fuel : Nat} (ih : Stable render fuel) {s : Text} (hs : 2 * s.length < fuel + 1) :
    parseValue render (fuel + 1) s = parseValue render (fuel + 1 + 1) s := by
  unfold parseValue
  split
  case h_5 cs =>
    have hskip := skip_length cs
    rw [List.length_cons] at hs
    split
    · rfl
    · rw [ih.array (by omega)]
  case h_6 cs =>
    have hskip := skip_length cs
    rw [List.length_cons] at hs
    split
    · rfl
    · rw [ih.object (by omega)]
  all_goals rfl

theorem Stable.array_succ {fuel : Nat} (ih : Stable render fuel) {s : Text} (hs : 2 * s.length + 1 < fuel + 1) :
    parseArray render (fuel + 1) s = parseArray render (fuel + 1 + 1) s := by
  have hskip := skip_length s
  unfold parseArray
  rw [← ih.value (by omega)]
  split
  · rfl
  · next child r hvalue =>
    have hr := skip_length r
    have hshorter := (consumes fuel).value hvalue
    split
    · next cs heq =>
      rw [heq, List.length_cons] at hr
      rw [ih.array (by omega)]
    · rfl
    · rfl

theorem Stable.object_succ {fuel : Nat} (ih : Stable render fuel) {s : Text} (hs : 2 * s.length + 1 < fuel + 1) :
    parseObject render (fuel + 1) s = parseObject render (fuel + 1 + 1) s := by
  have hskip := skip_length s
  unfold parseObject
  split
  · rfl
  · next name r hname =>
    have hr := skip_length r
    have hbehind := parseString_length hname
    split
    · next cs hcolon =>
      have hcs := skip_length cs
      rw [hcolon, List.length_cons] at hr
      rw [← ih.value (by omega)]
      split
      · rfl
      · next child r' hvalue =>
        have hr' := skip_length r'
        have hshorter := (consumes fuel).value hvalue
        split
        · next cs' heq =>
          rw [heq, List.length_cons] at hr'
          rw [ih.object (by omega)]
        · rfl
        · rfl
    · rfl

theorem stable (fuel : Nat) : Stable render fuel := by
  induction fuel with
  | zero => exact ⟨fun h => by omega, fun h => by omega, fun h => by omega⟩
  | succ fuel ih => exact ⟨ih.value_succ, ih.array_succ, ih.object_succ⟩

theorem cJSONParse_eq {fuel : Nat} {value : Text} (h : 2 * value.length < fuel) :
    cJSONParse render value = (parseValue render fuel (skip value)).map Prod.fst := by
  have hskip := skip_length value
  obtain ⟨k, rfl⟩ := Nat.exists_eq_add_of_lt h
  unfold cJSONParse
  congr 1
  induction k with
  | zero => rfl
  | succ k ih =>
    rw [ih (by omega), (stable _).value (by omega)]
    rfl

end Fuel

end Json
end NXTServices
