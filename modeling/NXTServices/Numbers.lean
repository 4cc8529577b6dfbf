import NXTServices.Compact
import NXTServices.Protocol

/-!
# Which texts are numbers: `calc_nxt64bits` and `expand_nxt64bits` of `utils/jl777str.h`

* `expandLoop_add` : the digits of a number are all written;
* `expandNxt64bits_survives` : the text of a number is read back, and no other number has it;
* `digitsValue`, `calcNxt64bits_digits`, `calcNxt64bits_other` : what is read of any text;
* `expandNxt64bits_eq_iff` : which texts are written for a number;
* `Faithful`, `canonical_iff` : which texts are the text of what is read of them.
-/

namespace NXTServices
open Json (toNat_of_isDigit isDigit_of_mem_toDigits toDigits_cons)

/-! ## Numbers to texts and back -/

theorem expandLoop_add {fuel n : Nat} (h : n < 10 ^ fuel) (k : Nat) : expandLoop (fuel + k) n = expandLoop fuel n := by
  induction fuel generalizing n with
  | zero =>
    obtain rfl : n = 0 := by omega
    rw [Nat.zero_add]
    cases k with
    | zero => rfl
    | succ k => exact if_pos rfl
  | succ fuel ih =>
    rw [Nat.succ_add, expandLoop, expandLoop]
    rw [Nat.pow_succ] at h
    rw [ih (by omega)]

theorem cmpNxt64bits_expandNxt64bits (bits : BitVec 64) : Protocol.cmpNxt64bits (expandNxt64bits bits) bits :=
  decide_eq_true (.inr rfl)

/-- **Account numbers survive the text form.** -/
theorem expandNxt64bits_survives :
    (∀ bits, calcNxt64bits (expandNxt64bits bits) = bits ∧ Protocol.cmpNxt64bits (expandNxt64bits bits) bits) ∧
      Function.Injective expandNxt64bits := by
  refine ⟨fun bits => ⟨calcNxt64bits_expandNxt64bits bits, cmpNxt64bits_expandNxt64bits bits⟩, ?_⟩
  exact Function.LeftInverse.injective calcNxt64bits_expandNxt64bits

/-! ## What is read of a text -/

/-- The number that a text of digits spells, of any size. -/
def digitsValue (s : Text) : Nat := Nat.ofDigitChars 10 s 0

theorem digitsValue_concat (s : Text) (c : Char) :
    digitsValue (s ++ [c]) = 10 * digitsValue s + (c.toNat - '0'.toNat) := by
  rw [digitsValue, Nat.ofDigitChars_append, Nat.ofDigitChars_cons, Nat.ofDigitChars_nil]
  rfl

theorem isDigit_iff (c : Char) : isDigit c ↔ ¬ (c < '0' ∨ '9' < c) := by
  rw [isDigit, Bool.and_eq_true, decide_eq_true_eq, decide_eq_true_eq, not_or, Char.not_lt, Char.not_lt]

theorem calcLoop_digits {s : Text} (h : ∀ c ∈ s, isDigit c) (mult acc : BitVec 64) :
    calcLoop s.reverse mult acc = acc + mult * BitVec.ofNat 64 (digitsValue s) := by
  induction s using List.reverseRecOn generalizing mult acc with
  | nil =>
    show acc = acc + mult * 0
    ring
  | append_singleton s c ih =>
    obtain ⟨hs, hc⟩ := List.forall_mem_append.mp h
    rw [List.reverse_append, List.reverse_singleton, List.singleton_append, calcLoop,
      if_neg ((isDigit_iff c).mp (hc c List.mem_cons_self)), ih hs, digitsValue_concat]
    have hsplit (v d : Nat) : BitVec.ofNat 64 (10 * v + d) = 10 * BitVec.ofNat 64 v + BitVec.ofNat 64 d := by
      rw [BitVec.ofNat_add, BitVec.ofNat_mul]
      rfl
    rw [hsplit]
    ring

/-- A character that is no digit gives 0, whatever stands behind it. -/
theorem calcLoop_other {s : Text} (h : ∃ c ∈ s, ¬ isDigit c) (mult acc : BitVec 64) : calcLoop s mult acc = 0 := by
  induction s generalizing mult acc with
  | nil =>
    obtain ⟨c, hc, -⟩ := h
    cases hc
  | cons d s ih =>
    rw [calcLoop]
    split
    · rfl
    · next hd =>
      obtain ⟨c, hc, hother⟩ := h
      rcases List.mem_cons.mp hc with rfl | hc
      · exact absurd ((isDigit_iff c).mpr hd) hother
      · exact ih ⟨c, hc, hother⟩ _ _

theorem calcNxt64bits_long {s : Text} (h : 22 ≤ s.length) : calcNxt64bits s = 0 := if_pos h

theorem calcNxt64bits_other {s : Text} (h : ∃ c ∈ s, ¬ isDigit c) : calcNxt64bits s = 0 := by
  unfold calcNxt64bits
  split
  · rfl
  · split
    · rfl
    · obtain ⟨c, hc, hother⟩ := h
      exact calcLoop_other ⟨c, List.mem_reverse.mpr hc, hother⟩ _ _

/-- Digits are read modulo `2 ^ 64`. -/
theorem calcNxt64bits_digits {s : Text} (hlen : s.length < 22) (h : ∀ c ∈ s, isDigit c) :
    calcNxt64bits s = BitVec.ofNat 64 (digitsValue s) := by
  unfold calcNxt64bits
  rw [if_neg (by omega)]
  split
  · next hzero =>
    subst hzero
    rfl
  · rw [calcLoop_digits h, zero_add, one_mul]

/-! ## Which texts are written -/

theorem digitsValue_toDigits (n : Nat) : digitsValue (Nat.toDigits 10 n) = n := Nat.ofDigitChars_ten_toDigits

/-- A text of digits without a leading zero is that of its value. -/
theorem toDigits_digitsValue {s : Text} (h : ∀ c ∈ s, isDigit c) (hne : s ≠ []) (hhead : s.head? ≠ some '0') :
    Nat.toDigits 10 (digitsValue s) = s ∧ digitsValue s ≠ 0 := by
  induction s using List.reverseRecOn with
  | nil => exact absurd rfl hne
  | append_singleton s c ih =>
    obtain ⟨hs, hc⟩ := List.forall_mem_append.mp h
    obtain ⟨hlow, hhigh⟩ := toNat_of_isDigit (hc c List.mem_cons_self)
    have hzero : '0'.toNat = 48 := rfl
    have hchar : Nat.digitChar (c.toNat - 48) = c := by
      have hall : ∀ d < 10, Nat.digitChar d = Char.ofNat (d + 48) := by decide
      rw [hall _ (by omega), Nat.sub_add_cancel hlow, Char.ofNat_toNat]
    rw [digitsValue_concat, hzero]
    cases s with
    | nil =>
      have hdigit : c.toNat - 48 ≠ 0 := by
        intro hsmall
        rw [hsmall] at hchar
        exact hhead (congrArg some hchar.symm)
      refine ⟨?_, by omega⟩
      show Nat.toDigits 10 (10 * 0 + (c.toNat - 48)) = [c]
      rw [Nat.mul_zero, Nat.zero_add, Nat.toDigits_of_lt_base (by omega), hchar]
    | cons d s =>
      obtain ⟨htext, hvalue⟩ := ih hs (List.cons_ne_nil d s) hhead
      refine ⟨?_, by omega⟩
      rw [Nat.toDigits_of_base_le (by omega) (by omega), Nat.mul_add_div (by omega), Nat.mul_add_mod,
        Nat.div_eq_of_lt (by omega), Nat.add_zero, Nat.mod_eq_of_lt (by omega), htext, hchar]

/-- The texts written for a number: its digits, of which the first is not 0. -/
theorem expandNxt64bits_eq_iff {s : Text} {bits : BitVec 64} (hbits : bits ≠ 0) :
    expandNxt64bits bits = s ↔ (∀ c ∈ s, isDigit c) ∧ s.head? ≠ some '0' ∧ digitsValue s = bits.toNat := by
  have hne : bits.toNat ≠ 0 := fun h => hbits (BitVec.eq_of_toNat_eq h)
  have htext : expandNxt64bits bits = Nat.toDigits 10 bits.toNat := by
    have := expandNxt64bits_ofNat hne bits.isLt
    rwa [BitVec.ofNat_toNat, BitVec.setWidth_eq] at this
  rw [htext]
  constructor
  · rintro rfl
    refine ⟨fun c hc => isDigit_of_mem_toDigits hc, ?_, digitsValue_toDigits _⟩
    obtain ⟨c, cs, heq, hc⟩ := toDigits_cons hne
    rw [heq]
    exact fun h => hc (Option.some.inj h)
  · rintro ⟨hdigits, hhead, hvalue⟩
    have hnil : s ≠ [] := by
      rintro rfl
      exact hne hvalue.symm
    rw [← hvalue]
    exact (toDigits_digitsValue hdigits hnil hhead).1

/-! ## Which texts are the text of their number -/

/-- Too long, no number, a multiple of `2 ^ 64`, or a number below it without a leading zero. -/
def Faithful (s : Text) : Prop :=
  22 ≤ s.length ∨ (∃ c ∈ s, ¬ isDigit c) ∨ 2 ^ 64 ∣ digitsValue s ∨ (digitsValue s < 2 ^ 64 ∧ s.head? ≠ some '0')

theorem faithful_iff (s : Text) : (calcNxt64bits s ≠ 0 → expandNxt64bits (calcNxt64bits s) = s) ↔ Faithful s := by
  unfold Faithful
  by_cases hlen : 22 ≤ s.length
  · exact iff_of_true (fun h => absurd (calcNxt64bits_long hlen) h) (.inl hlen)
  · rw [or_iff_right hlen]
    by_cases hother : ∃ c ∈ s, ¬ isDigit c
    · exact iff_of_true (fun h => absurd (calcNxt64bits_other hother) h) (.inl hother)
    · rw [or_iff_right hother]
      have hdigits : ∀ c ∈ s, isDigit c := fun c hc => not_not.mp fun h => hother ⟨c, hc, h⟩
      have hcalc := calcNxt64bits_digits (by omega) hdigits
      have hnat : (calcNxt64bits s).toNat = digitsValue s % 2 ^ 64 := by rw [hcalc, BitVec.toNat_ofNat]
      by_cases hzero : calcNxt64bits s = 0
      · rw [hzero] at hnat
        exact iff_of_true (fun h => absurd hzero h) (.inl (Nat.dvd_of_mod_eq_zero hnat.symm))
      · have hmod : ¬ 2 ^ 64 ∣ digitsValue s := by
          intro hdvd
          rw [Nat.mod_eq_zero_of_dvd hdvd] at hnat
          exact hzero (BitVec.eq_of_toNat_eq hnat)
        rw [or_iff_right hmod, expandNxt64bits_eq_iff hzero, hnat]
        constructor
        · intro h
          obtain ⟨-, hhead, hvalue⟩ := h hzero
          exact ⟨hvalue ▸ Nat.mod_lt _ (by norm_num), hhead⟩
        · exact fun ⟨hsmall, hhead⟩ _ => ⟨hdigits, hhead, (Nat.mod_eq_of_lt hsmall).symm⟩

/-- **Which texts are the text of what is read of them**; of two such texts that are numbers, no two are the same
number. -/
theorem canonical_iff (s : Text) :
    ((calcNxt64bits s ≠ 0 → expandNxt64bits (calcNxt64bits s) = s) ↔ Faithful s) ∧
      ∀ t, Faithful s → Faithful t → calcNxt64bits s ≠ 0 → calcNxt64bits s = calcNxt64bits t → s = t := by
  refine ⟨faithful_iff s, fun t hs ht hne hsame => ?_⟩
  have hst := (faithful_iff s).mpr hs hne
  rw [hsame] at hst hne
  exact hst.symm.trans ((faithful_iff t).mpr ht hne)

/-- The text `01` is read as 1. -/
theorem not_forall_canonical : ¬ ∀ s, calcNxt64bits s ≠ 0 → expandNxt64bits (calcNxt64bits s) = s := by
  intro h
  exact absurd (h "01".toList (by decide)) (by decide)

/-- So is `2 ^ 64 + 1`. -/
example : calcNxt64bits "18446744073709551617".toList = 1 := by decide

end NXTServices
