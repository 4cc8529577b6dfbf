import Mathlib.Data.BitVec
import Mathlib.Tactic.Ring
import Mathlib.Tactic.IntervalCases
import Mathlib.Tactic.NormNum

/-!
# C strings and the numbers in them

* `Text` : a C string;
* `calcNxt64bits`, `expandNxt64bits` : the 64-bit number of an account, asset or transaction id and
  its text, from `utils/jl777str.h`;
* `calcNxt64bits_toDigits`, `expandNxt64bits_ofNat`, `calcNxt64bits_expandNxt64bits` : on decimal ids
  they undo each other;
* `atol` : the library function.
-/

namespace NXTServices

/-- A C string, byte by byte and without its terminating null. -/
abbrev Text := List Char

/-- So that membership in a list of texts is decided by one proof. -/
instance : LawfulBEq Text := inferInstance

/-! ## Account numbers -/

/-- The digits of the number, the last one first. -/
def expandLoop : Nat → Nat → Text
  | 0, _ => []
  | fuel + 1, n => if n = 0 then [] else Char.ofNat (n % 10 + '0'.toNat) :: expandLoop fuel (n / 10)

/-- A 64-bit number has at most 20 digits. Zero is the empty string. -/
def expandNxt64bits (nxt64bits : BitVec 64) : Text := (expandLoop 20 nxt64bits.toNat).reverse

/-- The loop over the characters from the last one on. -/
def calcLoop : Text → BitVec 64 → BitVec 64 → BitVec 64
  | [], _, nxt64bits => nxt64bits
  | c :: cs, mult, nxt64bits =>
    if c < '0' ∨ '9' < c then 0
    else calcLoop cs (mult * 10) (nxt64bits + mult * BitVec.ofNat 64 (c.toNat - '0'.toNat))

def calcNxt64bits (nxtAddr : Text) : BitVec 64 :=
  if 22 ≤ nxtAddr.length then 0
  else if nxtAddr = "0".toList then 0
  else calcLoop nxtAddr.reverse 1 0

theorem expandLoop_eq {fuel n : Nat} (hn : n ≠ 0) (hlt : n < 10 ^ fuel) :
    (expandLoop fuel n).reverse = Nat.toDigits 10 n := by
  induction fuel generalizing n with
  | zero => omega
  | succ fuel ih =>
    have hchar : Char.ofNat (n % 10 + '0'.toNat) = Nat.digitChar (n % 10) := by
      have : n % 10 < 10 := Nat.mod_lt _ (by omega)
      interval_cases n % 10 <;> rfl
    rw [expandLoop, if_neg hn, List.reverse_cons, hchar]
    by_cases hsmall : n < 10
    · have hdiv : n / 10 = 0 := by omega
      rw [hdiv, Nat.toDigits_of_lt_base hsmall, Nat.mod_eq_of_lt hsmall]
      cases fuel <;> simp [expandLoop]
    · rw [ih (by omega) (by rw [Nat.pow_succ] at hlt; omega),
        Nat.toDigits_of_base_le (by omega) (by omega : 10 ≤ n)]

theorem expandNxt64bits_ofNat {n : Nat} (hn : n ≠ 0) (hlt : n < 2 ^ 64) :
    expandNxt64bits (BitVec.ofNat 64 n) = Nat.toDigits 10 n := by
  rw [expandNxt64bits, BitVec.toNat_ofNat, Nat.mod_eq_of_lt hlt]
  exact expandLoop_eq hn (by norm_num at hlt ⊢; omega)

theorem calcLoop_digit {d : Nat} (hd : d < 10) (cs : Text) (mult acc : BitVec 64) :
    calcLoop (Nat.digitChar d :: cs) mult acc = calcLoop cs (mult * 10) (acc + mult * BitVec.ofNat 64 d) := by
  interval_cases d <;> rfl

theorem calcLoop_toDigits (n : Nat) (mult acc : BitVec 64) :
    calcLoop (Nat.toDigits 10 n).reverse mult acc = acc + mult * BitVec.ofNat 64 n := by
  induction n using Nat.strongRecOn generalizing mult acc with
  | ind n ih =>
    by_cases hsmall : n < 10
    · rw [Nat.toDigits_of_lt_base hsmall, List.reverse_singleton, calcLoop_digit hsmall]
      rfl
    · rw [Nat.toDigits_of_base_le (by omega) (by omega : 10 ≤ n), List.reverse_append,
        List.reverse_singleton, List.singleton_append, calcLoop_digit (Nat.mod_lt n (by omega)),
        ih (n / 10) (by omega)]
      have hsplit : BitVec.ofNat 64 n = 10 * BitVec.ofNat 64 (n / 10) + BitVec.ofNat 64 (n % 10) := by
        rw [show (10 : BitVec 64) = BitVec.ofNat 64 10 from rfl, ← BitVec.ofNat_mul, ← BitVec.ofNat_add,
          Nat.div_add_mod]
      rw [hsplit]
      ring

theorem calcNxt64bits_toDigits {n : Nat} (hlt : n < 2 ^ 64) :
    calcNxt64bits (Nat.toDigits 10 n) = BitVec.ofNat 64 n := by
  have hlen : (Nat.toDigits 10 n).length ≤ 20 :=
    (Nat.length_toDigits_le_iff (by omega) (by omega)).mpr (by norm_num at hlt ⊢; omega)
  unfold calcNxt64bits
  rw [if_neg (by omega)]
  split
  · next h =>
    have hzero := congrArg (fun s => Nat.ofDigitChars 10 s 0) h
    rw [Nat.ofDigitChars_ten_toDigits] at hzero
    rw [hzero]
    rfl
  · rw [calcLoop_toDigits]
    ring

theorem length_expandNxt64bits (bits : BitVec 64) : (expandNxt64bits bits).length ≤ 20 := by
  have hloop (fuel n : Nat) : (expandLoop fuel n).length ≤ fuel := by
    induction fuel generalizing n with
    | zero => simp [expandLoop]
    | succ fuel ih =>
      rw [expandLoop]
      split
      · simp
      · rw [List.length_cons]
        exact Nat.succ_le_succ (ih (n / 10))
  rw [expandNxt64bits, List.length_reverse]
  exact hloop 20 bits.toNat

theorem calcNxt64bits_expandNxt64bits (bits : BitVec 64) : calcNxt64bits (expandNxt64bits bits) = bits := by
  by_cases hzero : bits = 0
  · subst hzero
    rfl
  · have hne : bits.toNat ≠ 0 := fun h => hzero (BitVec.eq_of_toNat_eq h)
    have hdigits : expandNxt64bits bits = Nat.toDigits 10 bits.toNat := by
      have := expandNxt64bits_ofNat hne bits.isLt
      rwa [BitVec.ofNat_toNat, BitVec.setWidth_eq] at this
    rw [hdigits, calcNxt64bits_toDigits bits.isLt, BitVec.ofNat_toNat, BitVec.setWidth_eq]

/-! ## `atol` -/

def isSpace (c : Char) : Bool := c == ' ' || ('\t' ≤ c && c ≤ '\r')

def isDigit (c : Char) : Bool := '0' ≤ c && c ≤ '9'

/-- The sign and the digits of a number, which is kept between the bounds of `int64_t`. -/
def atol (s : Text) : Int :=
  let (neg, digits) := match s.dropWhile isSpace with
    | '-' :: cs => (true, cs)
    | '+' :: cs => (false, cs)
    | cs => (false, cs)
  let n : Int := (digits.takeWhile isDigit).foldl (fun n c => n * 10 + (c.toNat - '0'.toNat : Nat)) 0
  if neg then max (-n) (-2 ^ 63) else min n (2 ^ 63 - 1)

example : atol " -42x".toList = -42 := by decide

end NXTServices
