import NXTServices.Hex
import Mathlib.Data.Nat.Digits.Defs

/-!
# Numbers of varying length: `_decode_varint` of `utils/jl777str.h`

* `decodeHexshort`, `decodeHexint`, `decodeHexlong`, `decodeVarint` : the readers;
* `Reads`, `Reads.join` : a reader of little-endian bytes, and the next wider one;
* `Encodes`, `compactSize` : the encodings of a number, and the shortest of them;
* `decodeVarint_compactSize` : they are read back one after the other.
-/

namespace NXTServices.Hex
open Protocol (unhex decodeHex)

/-! ## The readers -/

/-- `_decode_hex`. -/
def decodeHexByte (hex : Text) : BitVec 8 := BitVec.ofNat 8 (unhex (hex.getD 0 '0') <<< 4 ||| unhex (hex.getD 1 '0'))

/-- `lo | (hi << w)`, as wide as both of them. -/
def join {w : Nat} (lo hi : BitVec w) : BitVec (2 * w) := lo.setWidth (2 * w) ||| hi.setWidth (2 * w) <<< w

def decodeHexshort (hex : Text) : BitVec 16 := join (decodeHexByte hex) (decodeHexByte (hex.drop 2))

def decodeHexint (hex : Text) : BitVec 32 := join (decodeHexshort hex) (decodeHexshort (hex.drop 4))

def decodeHexlong (hex : Text) : BitVec 64 := join (decodeHexint hex) (decodeHexint (hex.drop 8))

/-- A reader of `n` digits that is called with `offsetp`. -/
def readAt {w : Nat} (read : Text → BitVec w) (n offset : Nat) (hex : Text) : BitVec w × Nat :=
  (read (hex.drop offset), offset + n)

/-- The number that is read at `offset` and the new `offset`. -/
def decodeVarint (offset : Nat) (hex : Text) : BitVec 64 × Nat :=
  let (x, offset) := readAt decodeHexByte 2 offset hex
  if x < 0xfd then (x.setWidth 64, offset)
  else if x = 0xfd then
    let (x, offset) := readAt decodeHexshort 4 offset hex
    (x.setWidth 64, offset)
  else if x = 0xfe then
    let (x, offset) := readAt decodeHexint 8 offset hex
    (x.setWidth 64, offset)
  else readAt decodeHexlong 16 offset hex

/-- `n` calls in a row. -/
def decodeVarints : Nat → Nat → Text → List (BitVec 64) × Nat
  | 0, offset, _ => ([], offset)
  | n + 1, offset, hex =>
    let (x, offset) := decodeVarint offset hex
    let (xs, offset) := decodeVarints n offset hex
    (x :: xs, offset)

/-! ## Little-endian bytes -/

theorem toNat_join {w : Nat} (lo hi : BitVec w) : (join lo hi).toNat = lo.toNat + 2 ^ w * hi.toNat := by
  have hlo := lo.isLt
  have hhi := hi.isLt
  have hwide : 2 ^ w ≤ 2 ^ (2 * w) := Nat.pow_le_pow_right (by omega) (by omega)
  have hshift : hi.toNat <<< w < 2 ^ (2 * w) := by
    rw [Nat.shiftLeft_eq, Nat.two_mul, Nat.pow_add]
    exact Nat.mul_lt_mul_of_pos_right hhi (Nat.two_pow_pos w)
  rw [join, BitVec.toNat_or, BitVec.toNat_shiftLeft, BitVec.toNat_setWidth, BitVec.toNat_setWidth,
    Nat.mod_eq_of_lt (hlo.trans_le hwide), Nat.mod_eq_of_lt (hhi.trans_le hwide), Nat.mod_eq_of_lt hshift, Nat.or_comm,
    ← Nat.shiftLeft_add_eq_or_of_lt hlo, Nat.shiftLeft_eq, Nat.mul_comm, Nat.add_comm]

/-- The number of some bytes, the lowest first. -/
def leValue (b : List (BitVec 8)) : Nat := Nat.ofDigits 256 (b.map BitVec.toNat)

/-- The `k` bytes of a number, the lowest first. -/
def leBytes : Nat → Nat → List (BitVec 8)
  | 0, _ => []
  | k + 1, n => BitVec.ofNat 8 n :: leBytes k (n / 256)

theorem length_leBytes (k n : Nat) : (leBytes k n).length = k := by
  induction k generalizing n with
  | zero => rfl
  | succ k ih => exact congrArg (· + 1) (ih (n / 256))

theorem leValue_leBytes {k n : Nat} (h : n < 256 ^ k) : leValue (leBytes k n) = n := by
  induction k generalizing n with
  | zero =>
    obtain rfl : n = 0 := by omega
    rfl
  | succ k ih =>
    have hdiv : n / 256 < 256 ^ k := Nat.div_lt_of_lt_mul (by rwa [Nat.pow_succ'] at h)
    have hrest := ih hdiv
    unfold leValue at hrest ⊢
    rw [leBytes, List.map_cons, Nat.ofDigits_cons, hrest, BitVec.toNat_ofNat]
    exact Nat.mod_add_div n 256

/-- `read` is the reader of `k` bytes. -/
def Reads (k : Nat) {w : Nat} (read : Text → BitVec w) : Prop :=
  ∀ (b : List (BitVec 8)) (rest : Text), b.length = k → (read (digits b ++ rest)).toNat = leValue b

theorem digits_append (a b : List (BitVec 8)) : digits (a ++ b) = digits a ++ digits b := List.flatMap_append

theorem reads_decodeHexByte : Reads 1 decodeHexByte := by
  intro b rest hlen
  obtain ⟨c, rfl⟩ := List.length_eq_one_iff.mp hlen
  have hbyte : decodeHexByte (digits [c] ++ rest) = c := (List.cons.inj (decodeHex_digits [c] rest)).1
  rw [hbyte]
  rfl

/-- Two readers of `k` bytes side by side read `2 * k` bytes. -/
theorem Reads.join {k w : Nat} {read : Text → BitVec w} (h : Reads k read) (hw : w = 8 * k) :
    Reads (2 * k) fun hex => Hex.join (read hex) (read (hex.drop (2 * k))) := by
  intro b rest hlen
  have hlow : (b.take k).length = k := by
    rw [List.length_take]
    omega
  have hhigh : (b.drop k).length = k := by
    rw [List.length_drop]
    omega
  have hsplit : digits b ++ rest = digits (b.take k) ++ (digits (b.drop k) ++ rest) := by
    rw [← List.append_assoc, ← digits_append, List.take_append_drop]
  have hdrop : (digits b ++ rest).drop (2 * k) = digits (b.drop k) ++ rest := by
    rw [hsplit, List.drop_left' (by rw [length_digits, hlow])]
  have hpow : 2 ^ w = 256 ^ k := by
    rw [hw, Nat.pow_mul]
  show (Hex.join (read (digits b ++ rest)) (read ((digits b ++ rest).drop (2 * k)))).toNat = leValue b
  rw [hdrop, hsplit, toNat_join, h _ _ hlow, h _ _ hhigh, hpow]
  conv_rhs => rw [← List.take_append_drop k b]
  rw [leValue, leValue, leValue, List.map_append, Nat.ofDigits_append, List.length_map, hlow]

theorem reads_decodeHexshort : Reads 2 decodeHexshort := reads_decodeHexByte.join rfl

theorem reads_decodeHexint : Reads 4 decodeHexint := reads_decodeHexshort.join rfl

theorem reads_decodeHexlong : Reads 8 decodeHexlong := reads_decodeHexint.join rfl

/-! ## The encodings of a number -/

/-- One byte below `fd`, else `fd`, `fe` or `ff` and the bytes of the number. -/
inductive Encodes (n : BitVec 64) : List (BitVec 8) → Prop
  | byte (h : n.toNat < 0xfd) : Encodes n [BitVec.ofNat 8 n.toNat]
  | short (h : n.toNat < 2 ^ 16) : Encodes n (0xfd :: leBytes 2 n.toNat)
  | int (h : n.toNat < 2 ^ 32) : Encodes n (0xfe :: leBytes 4 n.toNat)
  | long : Encodes n (0xff :: leBytes 8 n.toNat)

/-- The shortest encoding. -/
def compactSize (n : BitVec 64) : List (BitVec 8) :=
  if n.toNat < 0xfd then [BitVec.ofNat 8 n.toNat]
  else if n.toNat < 2 ^ 16 then 0xfd :: leBytes 2 n.toNat
  else if n.toNat < 2 ^ 32 then 0xfe :: leBytes 4 n.toNat
  else 0xff :: leBytes 8 n.toNat

theorem encodes_compactSize (n : BitVec 64) : Encodes n (compactSize n) := by
  unfold compactSize
  split
  · exact .byte ‹_›
  · split
    · exact .short ‹_›
    · split
      · exact .int ‹_›
      · exact .long

theorem readAt_leBytes {k w offset : Nat} {read : Text → BitVec w} {n : BitVec 64} {c : BitVec 8} {hex rest : Text}
    (hread : Reads k read) (hn : n.toNat < 256 ^ k)
    (hhex : digits (c :: leBytes k n.toNat) ++ rest = hex.drop offset) :
    (readAt read (2 * k) (offset + 2) hex).1.setWidth 64 = n := by
  have hdrop : hex.drop (offset + 2) = digits (leBytes k n.toNat) ++ rest := by
    rw [← List.drop_drop, ← hhex]
    rfl
  apply BitVec.eq_of_toNat_eq
  rw [readAt, hdrop, BitVec.toNat_setWidth, hread _ _ (length_leBytes k _), leValue_leBytes hn, Nat.mod_eq_of_lt n.isLt]

theorem decodeHexByte_cons {offset : Nat} {c : BitVec 8} {b : List (BitVec 8)} {hex rest : Text}
    (hhex : digits (c :: b) ++ rest = hex.drop offset) : decodeHexByte (hex.drop offset) = c := by
  rw [← hhex]
  exact (List.cons.inj (decodeHex_digits [c] (digits b ++ rest))).1

/-- One encoding is read, and the offset moves to its end. -/
theorem decodeVarint_encodes {n : BitVec 64} {enc : List (BitVec 8)} (h : Encodes n enc) {hex : Text} {offset : Nat}
    (hhex : digits enc <+: hex.drop offset) : decodeVarint offset hex = (n, offset + (digits enc).length) := by
  obtain ⟨rest, hhex⟩ := hhex
  rw [length_digits]
  cases h with
  | byte h =>
    have hsmall : BitVec.ofNat 8 n.toNat < 0xfd := by
      rw [BitVec.lt_def, BitVec.toNat_ofNat, Nat.mod_eq_of_lt (by omega)]
      exact h
    have hvalue : (BitVec.ofNat 8 n.toNat).setWidth 64 = n := by
      apply BitVec.eq_of_toNat_eq
      rw [BitVec.toNat_setWidth, BitVec.toNat_ofNat, Nat.mod_eq_of_lt (a := n.toNat) (by omega),
        Nat.mod_eq_of_lt n.isLt]
    show (if decodeHexByte (hex.drop offset) < 0xfd then _ else _) = _
    rw [decodeHexByte_cons hhex, if_pos hsmall, hvalue]
    rfl
  | short h =>
    show (if decodeHexByte (hex.drop offset) < 0xfd then _ else if decodeHexByte (hex.drop offset) = 0xfd then
      ((readAt decodeHexshort 4 (offset + 2) hex).1.setWidth 64, _) else _) = _
    rw [decodeHexByte_cons hhex, if_neg (by decide), if_pos rfl, readAt_leBytes reads_decodeHexshort h hhex]
    rfl
  | int h =>
    show (if decodeHexByte (hex.drop offset) < 0xfd then _ else if decodeHexByte (hex.drop offset) = 0xfd then _
      else if decodeHexByte (hex.drop offset) = 0xfe then
        ((readAt decodeHexint 8 (offset + 2) hex).1.setWidth 64, _) else _) = _
    rw [decodeHexByte_cons hhex, if_neg (by decide), if_neg (by decide), if_pos rfl,
      readAt_leBytes reads_decodeHexint h hhex]
    rfl
  | long =>
    have hvalue := readAt_leBytes reads_decodeHexlong n.isLt hhex
    rw [BitVec.setWidth_eq] at hvalue
    show (if decodeHexByte (hex.drop offset) < 0xfd then _ else if decodeHexByte (hex.drop offset) = 0xfd then _
      else if decodeHexByte (hex.drop offset) = 0xfe then _
      else ((readAt decodeHexlong 16 (offset + 2) hex).1, _)) = _
    rw [decodeHexByte_cons hhex, if_neg (by decide), if_neg (by decide), if_neg (by decide), hvalue]
    rfl

theorem decodeVarints_encodes {items : List (BitVec 64 × List (BitVec 8))} (h : ∀ i ∈ items, Encodes i.1 i.2)
    {hex : Text} {offset : Nat} (hhex : digits (items.flatMap Prod.snd) <+: hex.drop offset) :
    decodeVarints items.length offset hex =
      (items.map Prod.fst, offset + (digits (items.flatMap Prod.snd)).length) := by
  induction items generalizing offset with
  | nil => rfl
  | cons i items ih =>
    obtain ⟨hi, hitems⟩ := List.forall_mem_cons.mp h
    rw [List.flatMap_cons, digits_append] at hhex ⊢
    have hfirst := decodeVarint_encodes hi ((List.prefix_append _ _).trans hhex)
    have hrest : digits (items.flatMap Prod.snd) <+: hex.drop (offset + (digits i.2).length) := by
      obtain ⟨rest, hhex⟩ := hhex
      refine ⟨rest, ?_⟩
      rw [← List.drop_drop, ← hhex, List.append_assoc, List.drop_left]
    rw [List.length_cons, decodeVarints, hfirst]
    dsimp only
    rw [ih hitems hrest, List.length_append, Nat.add_assoc]
    rfl

/-- **Every encoding is read back, and a sequence of them one after the other.** -/
theorem decodeVarint_compactSize :
    (∀ n, Encodes n (compactSize n)) ∧
      (∀ n enc, Encodes n enc → ∀ hex offset, digits enc <+: hex.drop offset →
        decodeVarint offset hex = (n, offset + (digits enc).length)) ∧
      ∀ items : List (BitVec 64 × List (BitVec 8)), (∀ i ∈ items, Encodes i.1 i.2) → ∀ hex offset,
        digits (items.flatMap Prod.snd) <+: hex.drop offset →
          decodeVarints items.length offset hex =
            (items.map Prod.fst, offset + (digits (items.flatMap Prod.snd)).length) :=
  ⟨encodes_compactSize, fun _ _ h _ _ hhex => decodeVarint_encodes h hhex,
    fun _ h _ _ hhex => decodeVarints_encodes h hhex⟩

/-- 515 behind a 0, and 1 behind both. -/
theorem decodeVarint_compactSize_at_515 :
    decodeVarint 2 "00fd030201".toList = (515, 8) ∧ decodeVarints 3 0 "00fd030201".toList = ([0, 515, 1], 10) := by
  have henc : ∀ i ∈ [(0, [0x00]), (515, [0xfd, 0x03, 0x02]), (1, [0x01])], Encodes i.1 i.2 :=
    List.forall_mem_cons.mpr ⟨.byte (by decide), List.forall_mem_cons.mpr ⟨.short (by decide),
      List.forall_mem_singleton.mpr (.byte (by decide))⟩⟩
  exact ⟨decodeVarint_compactSize.2.1 515 [0xfd, 0x03, 0x02] (.short (by decide)) "00fd030201".toList 2
    ⟨['0', '1'], rfl⟩, decodeVarint_compactSize.2.2 _ henc "00fd030201".toList 0 ⟨[], rfl⟩⟩

end NXTServices.Hex
