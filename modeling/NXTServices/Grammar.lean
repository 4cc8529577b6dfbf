import NXTServices.Compact

/-!
# The texts of JSON

* `Gap`, `Chars`, `NumberText`, `Value` : the grammar, each rule with what stands behind its text;
* `Chars.stringBody_eq`, `NumberText.skipNumber_eq` : strings and numbers are read up to their ends;
* `Value.append` : a text of the grammar is one whatever stands behind it, numbers apart;
* `Value.parse` : **the parser reads every text of the grammar** as the node it stands for;
* `Denotes`, `cJSONParse_denotes` : a whole text.

A number stands for the text that its node prints. The code points of a string stand for their bytes.
-/

namespace NXTServices.Json

/-! ## The grammar -/

/-- White space. -/
inductive Gap : Text → Text → Prop
  | nil (s : Text) : Gap s s
  | cons {c : Char} {s rest : Text} (hc : c ∈ [' ', '\t', '\n', '\r']) (h : Gap s rest) : Gap (c :: s) rest

/-- The characters of a string and its closing quote. -/
inductive Chars : Text → Text → Text → Prop
  | close (rest : Text) : Chars ('"' :: rest) [] rest
  | plain {c : Char} {s str rest : Text} (hc : 31 < c.toNat ∧ c ≠ '"' ∧ c ≠ '\\') (h : Chars s str rest) :
      Chars (c :: s) (c :: str) rest
  | escape {c : Char} {s str rest : Text} (hc : c ∈ ['"', '\\', '/', 'b', 'f', 'n', 'r', 't']) (h : Chars s str rest) :
      Chars ('\\' :: c :: s) (unescape c :: str) rest
  | unicode {a b c d : Char} {s str rest : Text} (hhex : ∀ x ∈ [a, b, c, d], (hexDigit x).isSome)
      (hzero : parseHex4 a b c d ≠ 0) (hplane : ¬ (0xD800 ≤ parseHex4 a b c d ∧ parseHex4 a b c d ≤ 0xDFFF))
      (h : Chars s str rest) :
      Chars ('\\' :: 'u' :: a :: b :: c :: d :: s) (utf8 (parseHex4 a b c d) ++ str) rest
  | surrogates {a b c d e f g i : Char} {s str rest : Text}
      (hhex : ∀ x ∈ [a, b, c, d, e, f, g, i], (hexDigit x).isSome)
      (hhigh : 0xD800 ≤ parseHex4 a b c d ∧ parseHex4 a b c d ≤ 0xDBFF)
      (hlow : 0xDC00 ≤ parseHex4 e f g i ∧ parseHex4 e f g i ≤ 0xDFFF) (h : Chars s str rest) :
      Chars ('\\' :: 'u' :: a :: b :: c :: d :: '\\' :: 'u' :: e :: f :: g :: i :: s)
        (utf8 (0x10000 + ((parseHex4 a b c d &&& 0x3FF) <<< 10 ||| parseHex4 e f g i &&& 0x3FF)) ++ str) rest

inductive IntegerText : Text → Prop
  | zero : IntegerText ['0']
  | digits {c : Char} {cs : Text} (hc : '1' ≤ c ∧ c ≤ '9') (hcs : ∀ d ∈ cs, isDigit d) : IntegerText (c :: cs)

inductive FractionText : Text → Prop
  | nil : FractionText []
  | digits {c : Char} {cs : Text} (h : ∀ d ∈ c :: cs, isDigit d) : FractionText ('.' :: c :: cs)

inductive ExponentText : Text → Prop
  | nil : ExponentText []
  | digits {e c : Char} {sign cs : Text} (he : e = 'e' ∨ e = 'E') (hsign : sign = [] ∨ sign = ['+'] ∨ sign = ['-'])
      (h : ∀ d ∈ c :: cs, isDigit d) : ExponentText (e :: (sign ++ c :: cs))

inductive NumberText : Text → Prop
  | parts {sign integer fraction exponent : Text} (hsign : sign = [] ∨ sign = ['-']) (hinteger : IntegerText integer)
      (hfraction : FractionText fraction) (hexponent : ExponentText exponent) :
      NumberText (sign ++ (integer ++ (fraction ++ exponent)))

/-- Nothing that a number goes on with. -/
def NumberEnds (rest : Text) : Prop := ∀ c cs, rest = c :: cs → ¬ isDigit c ∧ c ≠ '.' ∧ c ≠ 'e' ∧ c ≠ 'E'

section
variable (render : Text → Text)

mutual

inductive Value : Text → Json → Text → Prop
  | null (rest : Text) : Value ('n' :: 'u' :: 'l' :: 'l' :: rest) null rest
  | false (rest : Text) : Value ('f' :: 'a' :: 'l' :: 's' :: 'e' :: rest) false rest
  | true (rest : Text) : Value ('t' :: 'r' :: 'u' :: 'e' :: rest) true rest
  | number {printed rest : Text} (h : NumberText printed) (hrest : NumberEnds rest) :
      Value (printed ++ rest) (number (render printed)) rest
  | string {s str rest : Text} (h : Chars s str rest) : Value ('"' :: s) (string str) rest
  | emptyArray {s rest : Text} (h : Gap s (']' :: rest)) : Value ('[' :: s) (array []) rest
  | array {s rest : Text} {children : List Json} (h : Elements s children rest) : Value ('[' :: s) (array children) rest
  | emptyObject {s rest : Text} (h : Gap s ('\x7d' :: rest)) : Value ('\x7b' :: s) (object []) rest
  | object {s rest : Text} {children : List (Text × Json)} (h : Members s children rest) :
      Value ('\x7b' :: s) (object children) rest

inductive Elements : Text → List Json → Text → Prop
  | last {s value behind rest : Text} {child : Json} (hgap : Gap s value) (h : Value value child behind)
      (hbehind : Gap behind (']' :: rest)) : Elements s [child] rest
  | cons {s value behind next rest : Text} {child : Json} {children : List Json} (hgap : Gap s value)
      (h : Value value child behind) (hbehind : Gap behind (',' :: next)) (hnext : Elements next children rest) :
      Elements s (child :: children) rest

inductive Member : Text → Text × Json → Text → Prop
  | pair {s chars str colon space value behind : Text} {child : Json} (hgap : Gap s ('"' :: chars))
      (hname : Chars chars str colon) (hcolon : Gap colon (':' :: space)) (hspace : Gap space value)
      (h : Value value child behind) : Member s (str, child) behind

inductive Members : Text → List (Text × Json) → Text → Prop
  | last {s behind rest : Text} {m : Text × Json} (h : Member s m behind) (hbehind : Gap behind ('\x7d' :: rest)) :
      Members s [m] rest
  | cons {s behind next rest : Text} {m : Text × Json} {children : List (Text × Json)} (h : Member s m behind)
      (hbehind : Gap behind (',' :: next)) (hnext : Members next children rest) : Members s (m :: children) rest

end

end

/-! ## White space -/

theorem Gap.skip_eq {s rest : Text} (h : Gap s rest) : skip s = skip rest := by
  induction h with
  | nil => rfl
  | @cons c s rest hc _ ih =>
    have hwhite : c.toNat ≤ 32 := by
      simp only [List.mem_cons, List.not_mem_nil, or_false] at hc
      rcases hc with rfl | rfl | rfl | rfl <;> decide
    rw [← ih]
    exact List.dropWhile_cons_of_pos (decide_eq_true hwhite)

theorem Gap.skip_cons {s rest : Text} {c : Char} (h : Gap s (c :: rest)) (hc : 32 < c.toNat) : skip s = c :: rest :=
  h.skip_eq.trans (Json.skip_cons hc rest)

theorem Gap.length_le {s rest : Text} (h : Gap s rest) : rest.length ≤ s.length := by
  induction h with
  | nil => exact Nat.le_refl _
  | cons _ _ ih => exact Nat.le_succ_of_le ih

/-! ## Strings -/

theorem stringBody_plain {c : Char} (hquote : c ≠ '"') (hback : c ≠ '\\') (s : Text) :
    stringBody (c :: s) = (c :: (stringBody s).1, (stringBody s).2) := by
  rw [stringBody.eq_def]
  split <;> simp_all

theorem stringBody_escape {c : Char} (hc : c ≠ 'u') (s : Text) :
    stringBody ('\\' :: c :: s) = (unescape c :: (stringBody s).1, (stringBody s).2) := by
  rw [stringBody.eq_def]
  split <;> simp_all
  next hother htext => exact absurd htext.2.symm (hother c s htext.1.symm)

/-- **A string is read up to its closing quote.** -/
theorem Chars.stringBody_eq {s str rest : Text} (h : Chars s str rest) : stringBody s = (str, rest) := by
  induction h with
  | close rest => rw [stringBody]
  | plain hc _ ih => rw [stringBody_plain hc.2.1 hc.2.2, ih]
  | @escape c s str rest hc _ ih =>
    have hu : c ≠ 'u' := by
      rintro rfl
      simp at hc
    rw [stringBody_escape hu, ih]
  | @unicode a b c d s str rest _ hzero hplane _ ih =>
    have hlow : ¬ ((0xDC00 ≤ parseHex4 a b c d ∧ parseHex4 a b c d ≤ 0xDFFF) ∨ parseHex4 a b c d = 0) := by omega
    have hhigh : ¬ (0xD800 ≤ parseHex4 a b c d ∧ parseHex4 a b c d ≤ 0xDBFF) := by omega
    rw [stringBody.eq_def]
    simp only [if_neg hlow, if_neg hhigh, ih]
  | @surrogates a b c d e f g i s str rest _ hhigh hlow _ ih =>
    have hfirst : ¬ ((0xDC00 ≤ parseHex4 a b c d ∧ parseHex4 a b c d ≤ 0xDFFF) ∨ parseHex4 a b c d = 0) := by omega
    have hsecond : ¬ (parseHex4 e f g i < 0xDC00 ∨ 0xDFFF < parseHex4 e f g i) := by omega
    rw [stringBody.eq_def]
    simp only [if_neg hfirst, if_pos hhigh, if_neg hsecond, ih]

theorem Chars.length_lt {s str rest : Text} (h : Chars s str rest) : rest.length < s.length := by
  induction h with
  | close rest => exact Nat.lt_succ_self _
  | _ =>
    simp only [List.length_cons]
    omega

/-! ## Numbers -/

theorem skipDigits_digits {ds rest : Text} (hds : ∀ d ∈ ds, isDigit d) (hrest : ∀ c cs, rest = c :: cs → ¬ isDigit c) :
    skipDigits (ds ++ rest) = rest := by
  rw [skipDigits, List.dropWhile_append_of_pos hds]
  cases rest with
  | nil => rfl
  | cons c cs => exact List.dropWhile_cons_of_neg (hrest c cs rfl)

theorem ExponentText.skipExponent_eq {exponent rest : Text} (h : ExponentText exponent) (hrest : NumberEnds rest) :
    skipExponent (exponent ++ rest) = rest := by
  cases h with
  | nil =>
    cases rest with
    | nil => rfl
    | cons c cs =>
      obtain ⟨-, -, he, hE⟩ := hrest c cs rfl
      exact if_neg (not_or.mpr ⟨he, hE⟩)
  | @digits e c sign cs he hsign h =>
    have hdigits := skipDigits_digits h fun d ds hd => (hrest d ds hd).1
    have hsign : skipPlusMinus (sign ++ c :: cs ++ rest) = c :: cs ++ rest := by
      have hc : isDigit c := h c List.mem_cons_self
      rcases hsign with rfl | rfl | rfl
      · have hplus : c ≠ '+' ∧ c ≠ '-' := digit_induction (p := fun c => c ≠ '+' ∧ c ≠ '-') (by decide) hc
        show skipPlusMinus (c :: (cs ++ rest)) = _
        unfold skipPlusMinus skipSign
        split
        · next heq => exact absurd (List.cons.inj heq).1 hplus.1
        · split
          · next heq => exact absurd (List.cons.inj heq).1 hplus.2
          · rfl
      · rfl
      · rfl
    show (if e = 'e' ∨ e = 'E' then skipDigits (skipPlusMinus (sign ++ c :: cs ++ rest)) else _) = rest
    rw [if_pos he, hsign, hdigits]

theorem ExponentText.not_digit {exponent rest : Text} (h : ExponentText exponent) (hrest : NumberEnds rest) :
    ∀ c cs, exponent ++ rest = c :: cs → ¬ isDigit c ∧ c ≠ '.' := by
  intro c cs heq
  cases h with
  | nil =>
    obtain ⟨hdigit, hpoint, -⟩ := hrest c cs heq
    exact ⟨hdigit, hpoint⟩
  | digits he =>
    obtain rfl := (List.cons.inj heq).1
    rcases he with rfl | rfl <;> decide

theorem FractionText.skipFraction_eq {fraction rest : Text} (h : FractionText fraction)
    (hrest : ∀ c cs, rest = c :: cs → ¬ isDigit c ∧ c ≠ '.') : skipFraction (fraction ++ rest) = rest := by
  cases h with
  | nil =>
    cases rest with
    | nil => rfl
    | cons c cs =>
      show skipFraction (c :: cs) = c :: cs
      unfold skipFraction
      split
      · next heq => exact absurd (List.cons.inj heq).1 (hrest c cs rfl).2
      · rfl
  | @digits c cs h =>
    show (if isDigit c then skipDigits (cs ++ rest) else _) = rest
    rw [if_pos (h c List.mem_cons_self)]
    exact skipDigits_digits (fun d hd => h d (List.mem_cons_of_mem c hd)) fun d ds hd => (hrest d ds hd).1

theorem FractionText.not_digit {fraction rest : Text} (h : FractionText fraction)
    (hrest : ∀ c cs, rest = c :: cs → ¬ isDigit c ∧ c ≠ '.') : ∀ c cs, fraction ++ rest = c :: cs → ¬ isDigit c := by
  intro c cs heq
  cases h with
  | nil => exact (hrest c cs heq).1
  | digits =>
    obtain rfl := (List.cons.inj heq).1
    decide

theorem isDigit_of_positive {c : Char} (hc : '1' ≤ c ∧ c ≤ '9') : isDigit c := by
  simp only [isDigit, Bool.and_eq_true, decide_eq_true_eq]
  exact ⟨Char.le_trans (by decide) hc.1, hc.2⟩

theorem skipPositive_eq_self {s : Text} (h : ∀ c cs, s = c :: cs → ¬ isDigit c) : skipPositive s = s := by
  cases s with
  | nil => rfl
  | cons c cs =>
    exact if_neg fun hc => h c cs rfl (isDigit_of_positive hc)

theorem IntegerText.skipInteger_eq {integer rest : Text} (h : IntegerText integer)
    (hrest : ∀ c cs, rest = c :: cs → ¬ isDigit c) : skipInteger (integer ++ rest) = rest := by
  cases h with
  | zero => exact skipPositive_eq_self hrest
  | @digits c cs hc hcs =>
    have hzero : c ≠ '0' := by
      rintro rfl
      exact absurd hc.1 (by decide)
    show skipInteger (c :: (cs ++ rest)) = rest
    unfold skipInteger
    split
    · next heq => exact absurd (List.cons.inj heq).1 hzero
    · show (if '1' ≤ c ∧ c ≤ '9' then skipDigits (cs ++ rest) else _) = rest
      rw [if_pos hc, skipDigits_digits hcs hrest]

theorem IntegerText.head {integer : Text} (h : IntegerText integer) : ∃ c cs, integer = c :: cs ∧ isDigit c := by
  cases h with
  | zero => exact ⟨'0', [], rfl, rfl⟩
  | @digits c cs hc _ => exact ⟨c, cs, rfl, isDigit_of_positive hc⟩

theorem NumberText.head {printed : Text} (h : NumberText printed) :
    ∃ c cs, printed = c :: cs ∧ (c = '-' ∨ isDigit c) := by
  cases h with
  | parts hsign hinteger _ _ =>
    obtain ⟨c, cs, rfl, hc⟩ := hinteger.head
    rcases hsign with rfl | rfl
    · exact ⟨c, _, rfl, .inr hc⟩
    · exact ⟨'-', _, rfl, .inl rfl⟩

/-- **A number is read up to its end.** -/
theorem NumberText.skipNumber_eq {printed rest : Text} (h : NumberText printed) (hrest : NumberEnds rest) :
    skipNumber (printed ++ rest) = rest := by
  cases h with
  | @parts sign integer fraction exponent hsign hinteger hfraction hexponent =>
    have hbehind := hexponent.not_digit hrest
    have hsign : skipSign (sign ++ (integer ++ (fraction ++ (exponent ++ rest)))) =
        integer ++ (fraction ++ (exponent ++ rest)) := by
      rcases hsign with rfl | rfl
      · obtain ⟨c, cs, rfl, hc⟩ := hinteger.head
        have hminus : c ≠ '-' := digit_induction (p := fun c => c ≠ '-') (by decide) hc
        show skipSign (c :: (cs ++ _)) = _
        unfold skipSign
        split
        · next heq => exact absurd (List.cons.inj heq).1 hminus
        · rfl
      · rfl
    simp only [List.append_assoc]
    rw [skipNumber, hsign, hinteger.skipInteger_eq (hfraction.not_digit hbehind), hfraction.skipFraction_eq hbehind,
      hexponent.skipExponent_eq hrest]

/-! ## More text behind -/

theorem Gap.append {s rest : Text} (h : Gap s rest) (behind : Text) : Gap (s ++ behind) (rest ++ behind) := by
  induction h with
  | nil s => exact .nil _
  | cons hc _ ih => exact .cons hc ih

theorem Gap.ne_nil {s rest : Text} {c : Char} (h : Gap s (c :: rest)) : s ≠ [] := by
  rintro rfl
  exact absurd h.length_le (Nat.not_succ_le_zero _)

theorem Chars.append {s str rest : Text} (h : Chars s str rest) (behind : Text) :
    Chars (s ++ behind) str (rest ++ behind) := by
  induction h with
  | close rest => exact .close _
  | plain hc _ ih => exact .plain hc ih
  | escape hc _ ih => exact .escape hc ih
  | unicode hhex hzero hplane _ ih => exact .unicode hhex hzero hplane ih
  | surrogates hhex hhigh hlow _ ih => exact .surrogates hhex hhigh hlow ih

theorem NumberEnds.append {rest behind : Text} (h : NumberEnds rest) (hbehind : rest ≠ [] ∨ NumberEnds behind) :
    NumberEnds (rest ++ behind) := by
  cases rest with
  | nil => exact hbehind.resolve_left fun hne => hne rfl
  | cons c cs =>
    intro d ds heq
    exact h d cs (congrArg (· :: cs) (List.cons.inj heq).1)

section
variable {render : Text → Text}

mutual

/-- Only a number looks at what stands behind it. -/
theorem Value.append {s rest : Text} {item : Json} : Value render s item rest → ∀ {behind : Text},
    rest ≠ [] ∨ NumberEnds behind → Value render (s ++ behind) item (rest ++ behind)
  | .null _, _, _ => .null _
  | .false _, _, _ => .false _
  | .true _, _, _ => .true _
  | .number h hrest, _, hbehind => by
    rw [List.append_assoc]
    exact .number h (hrest.append hbehind)
  | .string h, _, _ => .string (h.append _)
  | .emptyArray h, _, _ => .emptyArray (h.append _)
  | .array h, _, _ => .array h.append
  | .emptyObject h, _, _ => .emptyObject (h.append _)
  | .object h, _, _ => .object h.append

theorem Elements.append {s rest : Text} {children : List Json} : Elements render s children rest → ∀ {behind : Text},
    Elements render (s ++ behind) children (rest ++ behind)
  | .last hgap h hbehind, _ => .last (hgap.append _) (h.append (.inl hbehind.ne_nil)) (hbehind.append _)
  | .cons hgap h hbehind hnext, _ =>
    .cons (hgap.append _) (h.append (.inl hbehind.ne_nil)) (hbehind.append _) hnext.append

theorem Member.append {s rest : Text} {m : Text × Json} : Member render s m rest → ∀ {behind : Text},
    rest ≠ [] → Member render (s ++ behind) m (rest ++ behind)
  | .pair hgap hname hcolon hspace h, _, hrest =>
    .pair (hgap.append _) (hname.append _) (hcolon.append _) (hspace.append _) (h.append (.inl hrest))

theorem Members.append {s rest : Text} {children : List (Text × Json)} : Members render s children rest →
    ∀ {behind : Text}, Members render (s ++ behind) children (rest ++ behind)
  | .last h hbehind, _ => .last (h.append hbehind.ne_nil) (hbehind.append _)
  | .cons h hbehind hnext, _ => .cons (h.append hbehind.ne_nil) (hbehind.append _) hnext.append

end

end

/-! ## The parser -/

section
variable {render : Text → Text}

theorem Value.head {s rest : Text} {item : Json} (h : Value render s item rest) : ∃ c cs, s = c :: cs ∧ 32 < c.toNat ∧
    c ≠ ']' := by
  cases h with
  | number h _ =>
    obtain ⟨c, cs, rfl, hc⟩ := h.head
    refine ⟨c, _, rfl, ?_⟩
    rcases hc with rfl | hc
    · decide
    · exact digit_induction (p := fun c => 32 < c.toNat ∧ c ≠ ']') (by decide) hc
  | _ => exact ⟨_, _, rfl, by decide, by decide⟩

theorem parseValue_numberText {printed rest : Text} (h : NumberText printed) (hrest : NumberEnds rest) (fuel : Nat) :
    parseValue render (fuel + 1) (printed ++ rest) = some (number (render printed), rest) := by
  have hskip := h.skipNumber_eq hrest
  obtain ⟨c, cs, rfl, hc⟩ := h.head
  have hlen : (c :: cs ++ rest).length - rest.length = (c :: cs).length := by
    rw [List.length_append, Nat.add_sub_cancel]
  have htake : (c :: cs ++ rest).take ((c :: cs ++ rest).length - rest.length) = c :: cs := by
    rw [hlen, List.take_left]
  rw [List.cons_append] at hskip htake ⊢
  rw [parseValue_number fuel hc, hskip, htake]

theorem parseArray_skip (fuel : Nat) (value : Text) :
    parseArray render fuel (skip value) = parseArray render fuel value := by
  cases fuel with
  | zero => rfl
  | succ fuel =>
    have hskip : skip (skip value) = skip value :=
      List.dropWhile_eq_self_iff.mpr fun hl => List.dropWhile_get_zero_not _ _ hl
    rw [parseArray, parseArray, hskip]

mutual

theorem Value.length_lt {s rest : Text} {item : Json} : Value render s item rest → rest.length < s.length
  | .null rest | .false rest | .true rest => by
    simp only [List.length_cons]
    omega
  | .number h _ => by
    obtain ⟨c, cs, rfl, -⟩ := h.head
    simp only [List.length_cons, List.length_append]
    omega
  | .string h => Nat.lt_succ_of_lt h.length_lt
  | .emptyArray h | .emptyObject h => Nat.lt_succ_of_le (Nat.le_of_succ_le h.length_le)
  | .array h => Nat.lt_succ_of_lt h.length_lt
  | .object h => Nat.lt_succ_of_lt h.length_lt

theorem Elements.length_lt {s rest : Text} {children : List Json} :
    Elements render s children rest → rest.length < s.length
  | .last hgap h hbehind => by
    have hlen := h.length_lt
    have hbehind := hbehind.length_le
    have := hgap.length_le
    rw [List.length_cons] at hbehind
    omega
  | .cons hgap h hbehind hnext => by
    have hlen := h.length_lt
    have hlens := hnext.length_lt
    have hbehind := hbehind.length_le
    have := hgap.length_le
    rw [List.length_cons] at hbehind
    omega

theorem Member.length_lt {s rest : Text} {m : Text × Json} : Member render s m rest → rest.length < s.length
  | .pair hgap hname hcolon hspace h => by
    have hlen := h.length_lt
    have hname := hname.length_lt
    have hcolon := hcolon.length_le
    have hspace := hspace.length_le
    have hgap := hgap.length_le
    simp only [List.length_cons] at hcolon hgap
    omega

theorem Members.length_lt {s rest : Text} {children : List (Text × Json)} :
    Members render s children rest → rest.length < s.length
  | .last h hbehind => by
    have hlen := h.length_lt
    have hbehind := hbehind.length_le
    rw [List.length_cons] at hbehind
    omega
  | .cons h hbehind hnext => by
    have hlen := h.length_lt
    have hlens := hnext.length_lt
    have hbehind := hbehind.length_le
    rw [List.length_cons] at hbehind
    omega

end

theorem Value.skip_eq {s rest : Text} {item : Json} (h : Value render s item rest) : skip s = s := by
  obtain ⟨c, cs, rfl, hc, -⟩ := h.head
  exact skip_cons hc cs

theorem Elements.skip_head {s rest : Text} {children : List Json} (h : Elements render s children rest) :
    ∃ c cs, skip s = c :: cs ∧ c ≠ ']' := by
  cases h with
  | last hgap h _ | cons hgap h _ _ =>
    obtain ⟨c, cs, rfl, hc, hclose⟩ := h.head
    exact ⟨c, cs, hgap.skip_cons hc, hclose⟩

theorem Members.skip_head {s rest : Text} {children : List (Text × Json)} (h : Members render s children rest) :
    ∃ cs, skip s = '"' :: cs := by
  cases h with
  | last h _ | cons h _ _ =>
    cases h with
    | pair hgap _ _ _ _ => exact ⟨_, hgap.skip_cons (by decide)⟩

mutual

/-- **Every text of the grammar is read** as the node it stands for, up to its end. -/
theorem Value.parse {s rest : Text} {item : Json} : Value render s item rest → ∀ {fuel : Nat}, 2 * s.length < fuel →
    parseValue render fuel s = some (item, rest)
  | .null rest, fuel + 1, _ => by rw [parseValue]
  | .false rest, fuel + 1, _ => by rw [parseValue]
  | .true rest, fuel + 1, _ => by rw [parseValue]
  | .number h hrest, fuel + 1, _ => parseValue_numberText h hrest fuel
  | .string h, fuel + 1, _ => by rw [parseValue, h.stringBody_eq]
  | .emptyArray h, fuel + 1, _ => by
    rw [parseValue, h.skip_cons (by decide)]
    rfl
  | .emptyObject h, fuel + 1, _ => by
    rw [parseValue, h.skip_cons (by decide)]
    rfl
  | @Value.array _ s rest children h, fuel + 1, hfuel => by
    rw [List.length_cons] at hfuel
    have hparse : parseArray render fuel s = some (children, rest) := h.parse (by omega)
    obtain ⟨c, cs, hskip, hc⟩ := h.skip_head
    rw [← parseArray_skip, hskip] at hparse
    rw [parseValue, hskip]
    split
    · next heq => exact absurd (List.cons.inj heq).1 hc
    · rw [hparse]
      rfl
  | @Value.object _ s rest children h, fuel + 1, hfuel => by
    rw [List.length_cons] at hfuel
    have hparse : parseObject render fuel s = some (children, rest) := h.parse (by omega)
    obtain ⟨cs, hskip⟩ := h.skip_head
    rw [← parseObject_skip, hskip] at hparse
    rw [parseValue, hskip]
    show (parseObject render fuel ('"' :: cs)).map _ = _
    rw [hparse]
    rfl

theorem Elements.parse {s rest : Text} {children : List Json} : Elements render s children rest → ∀ {fuel : Nat},
    2 * s.length + 1 < fuel → parseArray render fuel s = some (children, rest)
  | @Elements.last _ s value behind rest child hgap h hbehind, fuel + 1, hfuel => by
    have hlen := hgap.length_le
    have hvalue : parseValue render fuel value = some (child, behind) := h.parse (by omega)
    rw [parseArray, hgap.skip_eq, h.skip_eq, hvalue]
    dsimp only
    rw [hbehind.skip_cons (by decide)]
    rfl
  | @Elements.cons _ s value behind next rest child children hgap h hbehind hnext, fuel + 1, hfuel => by
    have hlen := hgap.length_le
    have hvalue : parseValue render fuel value = some (child, behind) := h.parse (by omega)
    have hbefore := h.length_lt
    have hcomma := hbehind.length_le
    rw [List.length_cons] at hcomma
    have hchildren : parseArray render fuel next = some (children, rest) := hnext.parse (by omega)
    rw [parseArray, hgap.skip_eq, h.skip_eq, hvalue]
    dsimp only
    rw [hbehind.skip_cons (by decide)]
    show (parseArray render fuel next).map _ = _
    rw [hchildren]
    rfl

theorem Member.parse {s behind : Text} {m : Text × Json} : Member render s m behind → ∀ {fuel : Nat},
    2 * s.length < fuel → parseObject render (fuel + 1) s = membersBehind render fuel m behind
  | @Member.pair _ s chars colon str space value behind child hgap hname hcolon hspace h, fuel, hfuel => by
    have hchars := hgap.length_le
    have hlen := hname.length_lt
    have hcolons := hcolon.length_le
    have hspaces := hspace.length_le
    rw [List.length_cons] at hchars hcolons
    have hvalue : parseValue render fuel value = some (child, behind) := h.parse (by omega)
    rw [parseObject, hgap.skip_cons (by decide)]
    simp only [parseString, hname.stringBody_eq, hcolon.skip_cons (show 32 < ':'.toNat by decide), hspace.skip_eq,
      h.skip_eq, hvalue]
    rfl

theorem Members.parse {s rest : Text} {children : List (Text × Json)} : Members render s children rest →
    ∀ {fuel : Nat}, 2 * s.length + 1 < fuel → parseObject render fuel s = some (children, rest)
  | .last h hbehind, fuel + 1, hfuel => by
    rw [h.parse (Nat.lt_of_succ_lt_succ hfuel), membersBehind, hbehind.skip_cons (by decide)]
    rfl
  | @Members.cons _ s behind next rest m children h hbehind hnext, fuel + 1, hfuel => by
    have hlen := h.length_lt
    have hcomma := hbehind.length_le
    rw [List.length_cons] at hcomma
    have hchildren : parseObject render fuel next = some (children, rest) := hnext.parse (by omega)
    rw [h.parse (Nat.lt_of_succ_lt_succ hfuel), membersBehind, hbehind.skip_cons (by decide)]
    show (parseObject render fuel next).map _ = _
    rw [hchildren]
    rfl

end

/-- A whole text, with white space around the node. -/
def Denotes (render : Text → Text) (text : Text) (item : Json) : Prop :=
  ∃ value behind, Gap text value ∧ Value render value item behind ∧ Gap behind []

theorem cJSONParse_denotes {text : Text} {item : Json} (h : Denotes render text item) :
    cJSONParse render text = some item := by
  obtain ⟨value, behind, hgap, hvalue, -⟩ := h
  have hlen := hgap.length_le
  have hparse : parseValue render (2 * text.length + 1) value = some (item, behind) := hvalue.parse (by omega)
  rw [cJSONParse, hgap.skip_eq, hvalue.skip_eq, hparse]
  rfl

end

end NXTServices.Json
