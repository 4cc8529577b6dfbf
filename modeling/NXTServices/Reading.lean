import Mathlib.Data.List.TakeWhile
import NXTServices.Printing

/-!
# What is printed is read back

* `stringBody_printed` : a printed string, which loses its zero characters;
* `parseObject_printed`, `cJSONParse_strings` : an object of strings;
* `Unescaped`, `flatMap_escapeChar_eq_iff` : the texts that `copy_cJSON` gives back as they are.
-/

namespace NXTServices.Json

/-! ## Strings -/

/-- The string that is read for a printed one. -/
def readBack (str : Text) : Text := str.filter (· ≠ Char.ofNat 0)

theorem hexDigit_digitChar : ∀ n < 16, hexDigit (Nat.digitChar n) = some n := by decide

/-- A character below 32 that is printed by its number. -/
theorem stringBody_unicode {n : Nat} (hn : n < 32) (rest : Text) :
    stringBody ('\\' :: 'u' :: '0' :: '0' :: Nat.digitChar (n / 16) :: Nat.digitChar (n % 16) :: rest) =
      if n = 0 then stringBody rest else (Char.ofNat n :: (stringBody rest).1, (stringBody rest).2) := by
  have hparse : parseHex4 '0' '0' (Nat.digitChar (n / 16)) (Nat.digitChar (n % 16)) = n := by
    unfold parseHex4
    rw [hexDigit_digitChar _ (by omega), hexDigit_digitChar _ (by omega)]
    show ((0 * 16 + 0) * 16 + n / 16) * 16 + n % 16 = n
    omega
  rw [stringBody.eq_def]
  simp only [hparse]
  by_cases hzero : n = 0
  · simp [hzero]
  · have hutf : utf8 n = [Char.ofNat n] := if_pos (by omega)
    rw [if_neg (by omega), if_neg (by omega), if_neg hzero, hutf]
    rfl

theorem stringBody_escapeChar (c : Char) (rest : Text) : stringBody (escapeChar c ++ rest) =
    if c = Char.ofNat 0 then stringBody rest else (c :: (stringBody rest).1, (stringBody rest).2) := by
  rcases escapeChar_cases c with ⟨heq, hquote, hback, hlarge⟩ | ⟨k, heq, hu, -, hunescape⟩ | ⟨heq, hsmall⟩
  · have hne : c ≠ Char.ofNat 0 := by
      rintro rfl
      exact absurd hlarge (by decide)
    rw [heq, if_neg hne, List.singleton_append, stringBody.eq_def]
    split <;> simp_all
  · have hne : c ≠ Char.ofNat 0 := by
      rintro rfl
      have hlen : 6 = 2 := congrArg List.length heq
      omega
    rw [heq, if_neg hne, List.cons_append, List.singleton_append, stringBody.eq_def]
    split <;> simp_all
    next hother htext => exact absurd htext.2.symm (hother k rest htext.1.symm)
  · rw [heq]
    have hc : Char.ofNat c.toNat = c := Char.ofNat_toNat c
    show stringBody ('\\' :: 'u' :: '0' :: '0' :: _ :: _ :: rest) = _
    rw [stringBody_unicode hsmall, hc]
    by_cases hzero : c = Char.ofNat 0
    · subst hzero
      rfl
    · rw [if_neg hzero, if_neg fun h => hzero (by rw [← hc, h])]

theorem stringBody_printed (str rest : Text) :
    stringBody (str.flatMap escapeChar ++ '"' :: rest) = (readBack str, rest) := by
  induction str with
  | nil => simp [readBack, stringBody]
  | cons c str ih =>
    rw [List.flatMap_cons, List.append_assoc, stringBody_escapeChar, ih]
    unfold readBack
    by_cases hzero : c = Char.ofNat 0
    · rw [if_pos hzero, List.filter_cons_of_neg (by simpa using hzero)]
    · rw [if_neg hzero, List.filter_cons_of_pos (by simpa using hzero)]

/-! ## Objects of strings -/

def strings (ms : List (Text × Text)) : List (Text × Json) := ms.map fun m => (m.1, string m.2)

/-- The object that is read for a printed one. -/
def readBackStrings (ms : List (Text × Text)) : List (Text × Json) :=
  strings (ms.map fun m => (readBack m.1, readBack m.2))

section
variable {render : Text → Text}

theorem skip_append {lead : Text} (hlead : ∀ c ∈ lead, c.toNat ≤ 32) {c : Char} (hc : 32 < c.toNat) (rest : Text) :
    skip (lead ++ c :: rest) = c :: rest := by
  unfold skip
  rw [List.dropWhile_append_of_pos fun c hmem => by simpa using hlead c hmem]
  exact List.dropWhile_cons_of_neg (by simpa using hc)

theorem white_tabs (n : Nat) : ∀ c ∈ tabs n, c.toNat ≤ 32 := by
  intro c hc
  rw [List.eq_of_mem_replicate hc]
  decide

theorem white_newline : ∀ c ∈ ['\n'], c.toNat ≤ 32 := by simp

/-- The text of a printed member, behind some white space. -/
def member (lead : Text) (m : Text × Text) (rest : Text) : Text :=
  lead ++ '"' :: (m.1.flatMap escapeChar ++ '"' :: ':' :: '\t' :: '"' :: (m.2.flatMap escapeChar ++ '"' :: rest))

/-- What is read behind a member. -/
def behindMember (render : Text → Text) (fuel : Nat) (m : Text × Text) (rest : Text) :
    Option (List (Text × Json) × Text) :=
  match skip rest with
  | ',' :: cs =>
    (parseObject render (fuel + 1) cs).map fun (children, rest) =>
      ((readBack m.1, string (readBack m.2)) :: children, rest)
  | '}' :: cs => some ([(readBack m.1, string (readBack m.2))], cs)
  | _ => none

theorem parseObject_member {lead : Text} (hlead : ∀ c ∈ lead, c.toNat ≤ 32) (fuel : Nat) (m : Text × Text)
    (rest : Text) : parseObject render (fuel + 2) (member lead m rest) = behindMember render fuel m rest := by
  unfold member
  rw [parseObject, skip_append hlead (by decide)]
  simp only [parseString, stringBody_printed]
  have hcolon : ∀ cs : Text, skip (':' :: cs) = ':' :: cs := fun cs => rfl
  have hquote : ∀ cs : Text, skip ('\t' :: '"' :: cs) = '"' :: cs := fun cs => rfl
  simp only [hcolon, hquote, parseValue, stringBody_printed]
  rfl

theorem printObject_single (lead : Text) (depth : Nat) (m : Text × Text) (rest : Text) :
    lead ++ (printObject (strings [m]) depth ++ rest) = member (lead ++ tabs depth) m ('\n' :: rest) := by
  have hsep : ":\t".toList = [':', '\t'] := rfl
  show lead ++ (printObject [(m.1, string m.2)] depth ++ rest) = _
  rw [printObject, printValue, printString, printString, hsep, member]
  simp only [List.append_assoc, List.cons_append, List.nil_append]

theorem printObject_cons (lead : Text) (depth : Nat) (m m' : Text × Text) (ms : List (Text × Text)) (rest : Text) :
    lead ++ (printObject (strings (m :: m' :: ms)) depth ++ rest) =
      member (lead ++ tabs depth) m (',' :: (['\n'] ++ (printObject (strings (m' :: ms)) depth ++ rest))) := by
  have hsep : ":\t".toList = [':', '\t'] := rfl
  have hcomma : ",\n".toList = [',', '\n'] := rfl
  have hne : strings (m' :: ms) ≠ [] := List.cons_ne_nil _ _
  show lead ++ (printObject ((m.1, string m.2) :: strings (m' :: ms)) depth ++ rest) = _
  rw [printObject, printValue, printString, printString, hsep, hcomma, member]
  · simp only [List.append_assoc, List.cons_append, List.nil_append]
  · exact hne

theorem parseObject_printed (render : Text → Text) {ms : List (Text × Text)} (hms : ms ≠ []) (k : Nat) {lead : Text}
    (hlead : ∀ c ∈ lead, c.toNat ≤ 32) (depth d : Nat) (rest : Text) :
    parseObject render (ms.length + k + 1) (lead ++ (printObject (strings ms) depth ++ (tabs d ++ '}' :: rest))) =
      some (readBackStrings ms, rest) := by
  induction ms generalizing lead with
  | nil => exact absurd rfl hms
  | cons m ms ih =>
    have hwhite : ∀ c ∈ lead ++ tabs depth, c.toNat ≤ 32 := by
      intro c hc
      rcases List.mem_append.mp hc with hc | hc
      · exact hlead c hc
      · exact white_tabs depth c hc
    cases ms with
    | nil =>
      have hfuel : [m].length + k + 1 = k + 2 := by simp; omega
      have hline : ∀ c ∈ '\n' :: tabs d, c.toNat ≤ 32 := by simpa using white_tabs d
      have hend : skip ('\n' :: (tabs d ++ '}' :: rest)) = '}' :: rest := skip_append hline (by decide) rest
      rw [printObject_single, hfuel, parseObject_member hwhite, behindMember, hend]
      rfl
    | cons m' ms =>
      have hfuel : (m :: m' :: ms).length + k + 1 = ((m' :: ms).length + k) + 2 := by simp; omega
      have hcomma : ∀ cs : Text, skip (',' :: cs) = ',' :: cs := fun cs => rfl
      rw [printObject_cons, hfuel, parseObject_member hwhite, behindMember, hcomma]
      have hrest := ih (List.cons_ne_nil m' ms) white_newline
      simp only [hrest]
      rfl

theorem parseObject_skip (fuel : Nat) (value : Text) :
    parseObject render fuel (skip value) = parseObject render fuel value := by
  cases fuel with
  | zero => rfl
  | succ fuel =>
    have hskip : skip (skip value) = skip value :=
      List.dropWhile_eq_self_iff.mpr fun hl => List.dropWhile_get_zero_not _ _ hl
    rw [parseObject, parseObject, hskip]

/-- **A printed object of strings is read back**, its strings without their zero characters. -/
theorem cJSONParse_strings {ms : List (Text × Text)} (hms : ms ≠ []) :
    cJSONParse render (cJSONPrint (object (strings ms))) = some (object (readBackStrings ms)) := by
  have hprint : cJSONPrint (object (strings ms)) =
      '{' :: (['\n'] ++ (printObject (strings ms) 1 ++ (tabs 0 ++ '}' :: []))) := by
    cases ms with
    | nil => exact absurd rfl hms
    | cons m ms =>
      have hopen : "\x7b\n".toList = ['{', '\n'] := rfl
      show printValue (object ((m.1, string m.2) :: strings ms)) 0 = _
      rw [printValue, hopen, List.append_assoc, List.append_assoc]
      · rfl
      · exact List.cons_ne_nil _ _
  have hparse := parseObject_printed render hms (2 * (cJSONPrint (object (strings ms))).length) white_newline 1 0 []
  have hfuel : 2 * (cJSONPrint (object (strings ms))).length <
      ms.length + 2 * (cJSONPrint (object (strings ms))).length + 1 + 1 := by omega
  rw [cJSONParse_eq hfuel]
  generalize ms.length + 2 * (cJSONPrint (object (strings ms))).length + 1 = fuel at hparse
  rw [hprint]
  generalize hbody : ['\n'] ++ (printObject (strings ms) 1 ++ (tabs 0 ++ '}' :: [])) = body at hparse
  obtain ⟨quoted, hquoted⟩ : ∃ cs, skip body = '"' :: cs := by
    obtain ⟨m, ms, rfl⟩ := List.exists_cons_of_ne_nil hms
    have hwhite : ∀ c ∈ ['\n'] ++ tabs 1, c.toNat ≤ 32 := List.forall_mem_append.mpr ⟨white_newline, white_tabs 1⟩
    rw [← hbody]
    cases ms with
    | nil => exact ⟨_, by rw [printObject_single]; exact skip_append hwhite (by decide) _⟩
    | cons m' ms => exact ⟨_, by rw [printObject_cons]; exact skip_append hwhite (by decide) _⟩
  have hbrace : skip ('{' :: body) = '{' :: body := rfl
  rw [hbrace, parseValue, hquoted]
  show ((parseObject render fuel ('"' :: quoted)).map _).map _ = _
  rw [← hquoted, parseObject_skip, hparse]
  rfl

end

/-! ## Texts that stay as they are -/

/-- No quote, no backslash and no control character. -/
def Unescaped (str : Text) : Prop := ∀ c ∈ str, 31 < c.toNat ∧ c ≠ '"' ∧ c ≠ '\\'

instance (str : Text) : Decidable (Unescaped str) := List.decidableBAll _ str

theorem Unescaped.flatMap_escapeChar {str : Text} (h : Unescaped str) : str.flatMap escapeChar = str := by
  induction str with
  | nil => rfl
  | cons c str ih =>
    obtain ⟨hc, hstr⟩ := List.forall_mem_cons.mp h
    rw [List.flatMap_cons, ih hstr, escapeChar, if_pos hc]
    rfl

theorem Unescaped.readBack {str : Text} (h : Unescaped str) : readBack str = str := by
  apply List.filter_eq_self.mpr
  intro c hc
  have := (h c hc).1
  simp only [ne_eq, decide_not, Bool.not_eq_eq_eq_not, Bool.not_true, decide_eq_false_iff_not]
  rintro rfl
  exact absurd this (by decide)

/-- An escape is longer than its character. -/
theorem length_flatMap_escapeChar (str : Text) : str.length ≤ (str.flatMap escapeChar).length ∧
    ((str.flatMap escapeChar).length = str.length → Unescaped str) := by
  induction str with
  | nil => exact ⟨Nat.le_refl 0, fun _ c hc => nomatch hc⟩
  | cons c str ih =>
    rw [List.flatMap_cons, List.length_append, List.length_cons]
    have hc : 1 ≤ (escapeChar c).length ∧ ((escapeChar c).length = 1 → 31 < c.toNat ∧ c ≠ '"' ∧ c ≠ '\\') := by
      rcases escapeChar_cases c with ⟨heq, hquote, hback, hlarge⟩ | ⟨k, heq, -⟩ | ⟨heq, -⟩
      · rw [heq]
        exact ⟨Nat.le_refl 1, fun _ => ⟨hlarge, hquote, hback⟩⟩
      · rw [heq]
        exact ⟨by simp, fun h => by simp at h⟩
      · rw [heq]
        exact ⟨by simp, fun h => by simp at h⟩
    refine ⟨by omega, fun h => ?_⟩
    exact List.forall_mem_cons.mpr ⟨hc.2 (by omega), ih.2 (by omega)⟩

/-- **A text is copied as it is** exactly when it needs no escape; a copy that is cut is another text. -/
theorem take_flatMap_escapeChar_eq_iff {str : Text} {n : Nat} (hlen : str.length < n) :
    (str.flatMap escapeChar).take n = str ↔ Unescaped str := by
  constructor
  · intro h
    have hlength := congrArg List.length h
    rw [List.length_take] at hlength
    exact (length_flatMap_escapeChar str).2 (by omega)
  · intro h
    rw [h.flatMap_escapeChar, List.take_of_length_le (Nat.le_of_lt hlen)]

theorem flatMap_escapeChar_eq_iff {str : Text} : str.flatMap escapeChar = str ↔ Unescaped str :=
  ⟨fun h => (length_flatMap_escapeChar str).2 (congrArg List.length h), Unescaped.flatMap_escapeChar⟩

theorem zero_not_mem_flatMap_escapeChar (str : Text) : Char.ofNat 0 ∉ str.flatMap escapeChar := by
  have hdigit : ∀ n < 16, Nat.digitChar n ≠ Char.ofNat 0 := by decide
  intro hmem
  obtain ⟨c, -, hc⟩ := List.mem_flatMap.mp hmem
  rcases escapeChar_cases c with ⟨heq, -, -, hlarge⟩ | ⟨k, heq, -, -, hunescape⟩ | ⟨heq, hsmall⟩
  · rw [heq, List.mem_singleton] at hc
    rw [← hc] at hlarge
    exact absurd hlarge (by decide)
  · rw [heq] at hc
    have hk : k = Char.ofNat 0 := by simpa [eq_comm] using hc
    subst hk
    have hlen : (escapeChar c).length = 2 := by rw [heq]; rfl
    rw [← hunescape] at hlen
    exact absurd hlen (by decide)
  · rw [heq] at hc
    have hfirst := hdigit (c.toNat / 16) (by omega)
    have hsecond := hdigit (c.toNat % 16) (by omega)
    simp only [List.mem_cons, List.not_mem_nil, or_false] at hc
    rcases hc with hc | hc | hc | hc | hc | hc
    · exact absurd hc (by decide)
    · exact absurd hc (by decide)
    · exact absurd hc (by decide)
    · exact absurd hc (by decide)
    · exact hfirst hc.symm
    · exact hsecond hc.symm

/-- The same for a text that has been printed and read before. -/
theorem take_readBack_eq_iff {str : Text} {n : Nat} (hlen : str.length < n) :
    ((readBack str).flatMap escapeChar).take n = str ↔ Unescaped str := by
  constructor
  · intro h
    have hwhole : (readBack str).flatMap escapeChar = str := by
      have hlength := congrArg List.length h
      rw [List.length_take] at hlength
      rwa [List.take_of_length_le (by omega)] at h
    have hzero : readBack str = str := by
      apply List.filter_eq_self.mpr
      intro c hc
      rw [← hwhole] at hc
      simpa using fun h => zero_not_mem_flatMap_escapeChar _ (h ▸ hc)
    rw [hzero] at hwhole
    exact flatMap_escapeChar_eq_iff.mp hwhole
  · intro h
    rw [h.readBack]
    exact (take_flatMap_escapeChar_eq_iff hlen).mpr h

end NXTServices.Json
