import Mathlib.Data.BitVec
import Mathlib.Logic.Function.Iterate

/-!
# Shift registers with feedback

* `shift`, `feed` : one shift of the register, and one with a bit of the message;
* `shift_xor`, `shift_injective` : a shift is linear, and it loses nothing when the polynomial has its top bit;
* `run_eq_iterate` : the bits of a message of at most the register's width are added before it is shifted;
* `run_burst` : **a burst is seen**: messages that differ within the width of the register leave different registers;
* `iterate_shift_eq` : several shifts at once, from the bits that leave.
-/

namespace Lfsr
variable {w : Nat} {poly : BitVec w}

/-- One shift to the right. The polynomial is added when the bit that leaves is set. -/
def shift (poly s : BitVec w) : BitVec w := if s.getLsbD 0 then s >>> 1 ^^^ poly else s >>> 1

/-- The register of one bit. -/
def bit (b : Bool) : BitVec w := BitVec.ofNat w b.toNat

/-- One shift, with a bit of the message added to the one that leaves. -/
def feed (poly s : BitVec w) (b : Bool) : BitVec w := shift poly (s ^^^ bit b)

/-- The register after a message. -/
def run (poly s : BitVec w) (bs : List Bool) : BitVec w := bs.foldl (feed poly) s

@[simp] theorem run_nil (s : BitVec w) : run poly s [] = s := rfl

theorem run_cons (s : BitVec w) (b : Bool) (bs : List Bool) : run poly s (b :: bs) = run poly (feed poly s b) bs := rfl

theorem run_append (s : BitVec w) (bs bs' : List Bool) : run poly s (bs ++ bs') = run poly (run poly s bs) bs' :=
  List.foldl_append

/-! ## Shifts -/

theorem shift_xor (poly a b : BitVec w) : shift poly (a ^^^ b) = shift poly a ^^^ shift poly b := by
  unfold shift
  rw [BitVec.getLsbD_xor, BitVec.ushiftRight_xor_distrib]
  cases a.getLsbD 0 <;> cases b.getLsbD 0
  · rfl
  · exact BitVec.xor_assoc _ _ _
  · show a >>> 1 ^^^ b >>> 1 ^^^ poly = a >>> 1 ^^^ poly ^^^ b >>> 1
    rw [BitVec.xor_assoc, BitVec.xor_comm (b >>> 1), ← BitVec.xor_assoc]
  · show a >>> 1 ^^^ b >>> 1 = a >>> 1 ^^^ poly ^^^ (b >>> 1 ^^^ poly)
    rw [BitVec.xor_comm (b >>> 1), ← BitVec.xor_assoc, BitVec.xor_assoc (a >>> 1) poly, BitVec.xor_self,
      BitVec.xor_zero]

theorem iterate_shift_xor (n : Nat) (a b : BitVec w) :
    (shift poly)^[n] (a ^^^ b) = (shift poly)^[n] a ^^^ (shift poly)^[n] b := by
  induction n generalizing a b with
  | zero => rfl
  | succ n ih => rw [Function.iterate_succ_apply, shift_xor, ih, ← Function.iterate_succ_apply,
      ← Function.iterate_succ_apply]

theorem msb_ushiftRight_one (s : BitVec w) : (s >>> 1).msb = false := by
  rw [BitVec.msb_eq_getLsbD_last, BitVec.getLsbD_ushiftRight]
  exact BitVec.getLsbD_of_ge _ _ (by omega)

/-- The bit that left is the top bit of what is there after the shift. -/
theorem msb_shift (hpoly : poly.msb = true) (s : BitVec w) : (shift poly s).msb = s.getLsbD 0 := by
  unfold shift
  cases s.getLsbD 0
  · exact msb_ushiftRight_one s
  · show (s >>> 1 ^^^ poly).msb = true
    rw [BitVec.msb_xor, msb_ushiftRight_one, hpoly]
    rfl

theorem eq_of_ushiftRight_one {a b : BitVec w} (hlow : a.getLsbD 0 = b.getLsbD 0) (h : a >>> 1 = b >>> 1) : a = b := by
  apply BitVec.eq_of_getLsbD_eq
  intro i _
  cases i with
  | zero => exact hlow
  | succ i =>
    have hi := congrArg (fun s => s.getLsbD i) h
    simpa only [BitVec.getLsbD_ushiftRight, Nat.add_comm 1 i] using hi

theorem shift_injective (hpoly : poly.msb = true) : Function.Injective (shift poly) := by
  intro a b h
  have hlow : a.getLsbD 0 = b.getLsbD 0 := by rw [← msb_shift hpoly, h, msb_shift hpoly]
  apply eq_of_ushiftRight_one hlow
  unfold shift at h
  rw [hlow] at h
  cases hb : b.getLsbD 0 with
  | false => rwa [hb, if_neg Bool.false_ne_true, if_neg Bool.false_ne_true] at h
  | true => rwa [hb, if_pos rfl, if_pos rfl, BitVec.xor_left_inj] at h

theorem run_injective (hpoly : poly.msb = true) (bs : List Bool) : Function.Injective fun s => run poly s bs := by
  induction bs with
  | nil => exact Function.injective_id
  | cons b bs ih =>
    intro s s' h
    exact (BitVec.xor_left_inj _).mp (shift_injective hpoly (ih h))

/-! ## Messages no longer than the register -/

/-- The bits of a message in a register, the first one at the bottom. -/
def place : List Bool → BitVec w
  | [] => 0#w
  | b :: bs => place bs <<< 1 ^^^ bit b

theorem getLsbD_bit (b : Bool) (i : Nat) : (bit b : BitVec w).getLsbD i = (decide (i = 0) && decide (0 < w) && b) := by
  unfold bit
  rw [BitVec.getLsbD_ofNat]
  cases b <;> cases i <;> simp [Nat.testBit_succ]

theorem getLsbD_place (bs : List Bool) (i : Nat) :
    (place bs : BitVec w).getLsbD i = (decide (i < w) && bs.getD i false) := by
  induction bs generalizing i with
  | nil => simp [place]
  | cons b bs ih =>
    rw [place, BitVec.getLsbD_xor, getLsbD_bit, BitVec.getLsbD_shiftLeft]
    cases i with
    | zero => simp
    | succ i =>
      rw [Nat.add_sub_cancel, ih, List.getD_cons_succ]
      by_cases hi : i + 1 < w
      · simp [hi, show i < w by omega]
      · simp [hi]

theorem place_inj {bs bs' : List Bool} (hlen : bs.length = bs'.length) (hw : bs.length ≤ w)
    (h : (place bs : BitVec w) = place bs') : bs = bs' := by
  apply List.ext_getElem hlen
  intro i hi hi'
  have hbit := congrArg (fun s => s.getLsbD i) h
  have hiw : i < w := by omega
  simpa only [getLsbD_place, hiw, decide_true, Bool.true_and, List.getD_eq_getElem?_getD, List.getElem?_eq_getElem hi,
    List.getElem?_eq_getElem hi', Option.getD_some] using hbit

/-- A shift brings back what has been shifted up, when no bit was lost. -/
theorem shift_shiftLeft {bs : List Bool} (hw : bs.length < w) : shift poly (place bs <<< 1) = place bs := by
  have hlow : (place bs <<< 1 : BitVec w).getLsbD 0 = false := by simp
  unfold shift
  rw [hlow, if_neg Bool.false_ne_true]
  apply BitVec.eq_of_getLsbD_eq
  intro i hi
  rw [BitVec.getLsbD_ushiftRight, BitVec.getLsbD_shiftLeft, getLsbD_place, getLsbD_place]
  by_cases hlast : 1 + i < w
  · simp [hlast, show i < w by omega]
  · have hnone : bs.getD i false = false := by
      rw [List.getD_eq_getElem?_getD, List.getElem?_eq_none (by omega)]
      rfl
    rw [hnone]
    simp [hlast]

theorem run_eq_iterate {bs : List Bool} (hw : bs.length ≤ w) (s : BitVec w) :
    run poly s bs = (shift poly)^[bs.length] (s ^^^ place bs) := by
  induction bs generalizing s with
  | nil => exact (BitVec.xor_zero).symm
  | cons b bs ih =>
    have hbs : bs.length < w := hw
    rw [run_cons, ih (Nat.le_of_lt hbs), List.length_cons, Function.iterate_succ_apply, place,
      BitVec.xor_comm (place bs <<< 1), ← BitVec.xor_assoc, shift_xor, shift_shiftLeft hbs]
    rfl

theorem run_inj {bs bs' : List Bool} (hpoly : poly.msb = true) (hlen : bs.length = bs'.length) (hw : bs.length ≤ w)
    {s : BitVec w} (h : run poly s bs = run poly s bs') : bs = bs' := by
  rw [run_eq_iterate hw, run_eq_iterate (hlen ▸ hw), ← hlen] at h
  have hplace := (BitVec.xor_right_inj _).mp ((shift_injective hpoly).iterate bs.length h)
  exact place_inj hlen hw hplace

/-- **A burst is seen**: two messages that agree but for a window of the register's width leave different
registers. -/
theorem run_burst {before mid mid' after : List Bool} (hpoly : poly.msb = true) (hlen : mid.length = mid'.length)
    (hw : mid.length ≤ w) {s : BitVec w}
    (h : run poly s (before ++ mid ++ after) = run poly s (before ++ mid' ++ after)) : mid = mid' := by
  simp only [run_append] at h
  exact run_inj hpoly hlen hw (run_injective hpoly after h)

/-! ## Several shifts at once -/

/-- The lowest `n` bits. -/
def low (n : Nat) (s : BitVec w) : BitVec w := s &&& BitVec.ofNat w (2 ^ n - 1)

theorem getLsbD_low (n i : Nat) (s : BitVec w) : (low n s).getLsbD i = (decide (i < n) && s.getLsbD i) := by
  unfold low
  rw [BitVec.getLsbD_and, BitVec.getLsbD_ofNat, Nat.testBit_two_pow_sub_one]
  by_cases hi : i < w
  · simp [hi, Bool.and_comm]
  · rw [BitVec.getLsbD_of_ge _ _ (by omega)]
    simp

/-- Clear bits leave without a trace. -/
theorem iterate_shift_of_low {n : Nat} {s : BitVec w} (h : low n s = 0#w) : (shift poly)^[n] s = s >>> n := by
  induction n generalizing s with
  | zero => rfl
  | succ n ih =>
    have hbit (i : Nat) (hi : i < n + 1) : s.getLsbD i = false := by
      have hi' := congrArg (fun s => s.getLsbD i) h
      simpa [getLsbD_low, hi] using hi'
    have hshift : shift poly s = s >>> 1 := by
      unfold shift
      rw [hbit 0 (by omega), if_neg Bool.false_ne_true]
    have hlow : low n (s >>> 1) = 0#w := by
      apply BitVec.eq_of_getLsbD_eq
      intro i _
      rw [getLsbD_low, BitVec.getLsbD_ushiftRight, BitVec.getLsbD_zero]
      by_cases hi : i < n
      · rw [hbit _ (by omega), Bool.and_false]
      · simp [hi]
    rw [Function.iterate_succ_apply, hshift, ih hlow, ← BitVec.shiftRight_add, Nat.add_comm]

/-- The bits that leave are fed back by themselves, and the others only move. -/
theorem iterate_shift_eq (n : Nat) (s : BitVec w) :
    (shift poly)^[n] s = (shift poly)^[n] (low n s) ^^^ s >>> n := by
  have hsplit : s = low n s ^^^ (s ^^^ low n s) := by
    rw [BitVec.xor_comm s, ← BitVec.xor_assoc, BitVec.xor_self, BitVec.zero_xor]
  have hhigh : low n (s ^^^ low n s) = 0#w := by
    apply BitVec.eq_of_getLsbD_eq
    intro i _
    rw [getLsbD_low, BitVec.getLsbD_xor, getLsbD_low, BitVec.getLsbD_zero]
    by_cases hi : i < n <;> simp [hi]
  have hmove : (s ^^^ low n s) >>> n = s >>> n := by
    apply BitVec.eq_of_getLsbD_eq
    intro i _
    rw [BitVec.getLsbD_ushiftRight, BitVec.getLsbD_ushiftRight, BitVec.getLsbD_xor, getLsbD_low,
      decide_eq_false (show ¬ n + i < n by omega), Bool.false_and, Bool.xor_false]
  conv => lhs; rw [hsplit]
  rw [iterate_shift_xor, iterate_shift_of_low hhigh, hmove]

end Lfsr
