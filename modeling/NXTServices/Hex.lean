import NXTServices.Transaction

/-!
# Bytes as hexadecimal digits: `init_hexbytes`, `init_hexbytes_noT` and `decode_hex` of `utils/jl777str.h`

* `initHexbytes`, `initHexbytesNoT` : the two writers, which differ in where they put the null;
* `digits` : the digits of some bytes;
* `decodeHex_digits`, `digits_decodeHex` : they are read back, and they are all the texts of digits;
* `hexbytesLoop_concat`, `lastnonz_eq_iff` : where the null of `init_hexbytes` stands;
* `initHexbytes_survives_iff`, `initHexbytesNoT_bijection` : which bytes survive each writer.
-/

namespace NXTServices.Hex
open Protocol (unhex decodeHex)

/-! ## Writing -/

def hexbyte (c : Nat) : Char := if c < 10 then Char.ofNat ('0'.toNat + c) else Char.ofNat ('a'.toNat + c - 10)

/-- The loop of `init_hexbytes` from the byte `i` on: the digits and the place of the last byte that is not zero. -/
def hexbytesLoop : List (BitVec 8) → Nat → Int → Text × Int
  | [], _, lastnonz => ([], lastnonz)
  | c :: message, i, lastnonz =>
    if c ≠ 0 then
      let (hexbytes, lastnonz) := hexbytesLoop message (i + 1) i
      (hexbyte (c.toNat >>> 4 &&& 0xf) :: hexbyte (c.toNat &&& 0xf) :: hexbytes, lastnonz)
    else
      let (hexbytes, lastnonz) := hexbytesLoop message (i + 1) lastnonz
      ('0' :: '0' :: hexbytes, lastnonz)

/-- The bytes written to the buffer, the null among them, and the value that is returned. -/
def initHexbytes (message : List (BitVec 8)) : Text × Nat :=
  let (hexbytes, lastnonz) := hexbytesLoop message 0 (-1)
  let lastnonz := (lastnonz + 1).toNat
  (hexbytes.take (lastnonz * 2) ++ '\x00' :: hexbytes.drop (lastnonz * 2 + 1), lastnonz * 2 + 1)

/-- The two digits of each byte in turn. -/
def digits (message : List (BitVec 8)) : Text :=
  message.flatMap fun c => [hexbyte (c.toNat >>> 4 &&& 0xf), hexbyte (c.toNat &&& 0xf)]

def initHexbytesNoT (message : List (BitVec 8)) : Text × Nat := (digits message ++ ['\x00'], message.length * 2 + 1)

/-- The C string in a buffer. -/
def cString (hexbytes : Text) : Text := hexbytes.takeWhile (· ≠ '\x00')

@[simp] theorem cString_nil : cString [] = [] := rfl

@[simp] theorem cString_cons_null (rest : Text) : cString ('\x00' :: rest) = [] := rfl

theorem cString_cons {c : Char} (h : c ≠ '\x00') (rest : Text) : cString (c :: rest) = c :: cString rest := by
  simp [cString, h]

theorem null_notMem_cString (hexbytes : Text) : '\x00' ∉ cString hexbytes := by
  intro hmem
  have hall : (cString hexbytes).all (· ≠ '\x00') = true := List.all_takeWhile
  simpa using List.all_eq_true.mp hall '\x00' hmem

theorem cString_append {hexbytes : Text} (h : '\x00' ∉ hexbytes) (rest : Text) :
    cString (hexbytes ++ rest) = hexbytes ++ cString rest := by
  apply List.takeWhile_append_of_pos
  intro c hc
  rw [decide_eq_true_eq]
  rintro rfl
  exact h hc

theorem cString_of_notMem {hexbytes : Text} (h : '\x00' ∉ hexbytes) : cString hexbytes = hexbytes := by
  have hread := cString_append h []
  rwa [List.append_nil, cString_nil, List.append_nil] at hread

/-! ## Reading the digits -/

/-- A digit as it is written. -/
def isHexDigit (c : Char) : Bool := isDigit c || ('a' ≤ c && c ≤ 'f')

/-- What holds of the sixteen digits. -/
theorem hexDigit_induction {p : Char → Prop} (h : ∀ n < 16, p (hexbyte n)) {c : Char} (hc : isHexDigit c) : p c := by
  simp only [isHexDigit, isDigit, Bool.or_eq_true, Bool.and_eq_true, decide_eq_true_eq] at hc
  have hzero : '0'.toNat = 48 := rfl
  have ha : 'a'.toNat = 97 := rfl
  rcases hc with ⟨hlow, hhigh⟩ | ⟨hlow, hhigh⟩
  · have hlow : 48 ≤ c.toNat := UInt32.le_iff_toNat_le.mp hlow
    have hhigh : c.toNat ≤ 57 := UInt32.le_iff_toNat_le.mp hhigh
    have hdigit := h (c.toNat - 48) (by omega)
    rw [hexbyte, if_pos (by omega), hzero, Nat.add_sub_cancel' hlow, Char.ofNat_toNat] at hdigit
    exact hdigit
  · have hlow : 97 ≤ c.toNat := UInt32.le_iff_toNat_le.mp hlow
    have hhigh : c.toNat ≤ 102 := UInt32.le_iff_toNat_le.mp hhigh
    have hdigit := h (c.toNat - 87) (by omega)
    rw [hexbyte, if_neg (by omega), ha, show 97 + (c.toNat - 87) - 10 = c.toNat by omega, Char.ofNat_toNat] at hdigit
    exact hdigit

theorem unhex_hexbyte {n : Nat} (h : n < 16) : unhex (hexbyte n) = n := by
  revert n
  decide

theorem hexbyte_unhex {c : Char} (hc : isHexDigit c) : hexbyte (unhex c) = c :=
  hexDigit_induction (p := fun c => hexbyte (unhex c) = c) (fun _ hn => congrArg hexbyte (unhex_hexbyte hn)) hc

theorem unhex_lt {c : Char} (hc : isHexDigit c) : unhex c < 16 :=
  hexDigit_induction (p := fun c => unhex c < 16) (fun _ hn => (unhex_hexbyte hn).trans_lt hn) hc

theorem hexbyte_ne_null {n : Nat} (h : n < 16) : hexbyte n ≠ '\x00' := by
  revert n
  decide

theorem nibble_lt (n : Nat) : n &&& 0xf < 16 := Nat.and_lt_two_pow n (by decide : 15 < 2 ^ 4)

theorem join_nibbles (c : BitVec 8) :
    BitVec.ofNat 8 ((c.toNat >>> 4 &&& 0xf) <<< 4 ||| (c.toNat &&& 0xf)) = c := by
  revert c
  decide

theorem split_nibbles {high low : Nat} (hhigh : high < 16) (hlow : low < 16) :
    (BitVec.ofNat 8 (high <<< 4 ||| low)).toNat >>> 4 &&& 0xf = high ∧
      (BitVec.ofNat 8 (high <<< 4 ||| low)).toNat &&& 0xf = low := by
  have hall : ∀ high < 16, ∀ low < 16, (BitVec.ofNat 8 (high <<< 4 ||| low)).toNat >>> 4 &&& 0xf = high ∧
      (BitVec.ofNat 8 (high <<< 4 ||| low)).toNat &&& 0xf = low := by decide
  exact hall high hhigh low hlow

theorem decodeHex_succ (n : Nat) (high low : Char) (hex : Text) :
    decodeHex (n + 1) (high :: low :: hex) = BitVec.ofNat 8 (unhex high <<< 4 ||| unhex low) :: decodeHex n hex := by
  unfold decodeHex
  rw [List.range_succ_eq_map, List.map_cons, List.map_map]
  rfl

/-- **The digits of some bytes are read back**, whatever stands behind them. -/
theorem decodeHex_digits (b : List (BitVec 8)) (rest : Text) : decodeHex b.length (digits b ++ rest) = b := by
  induction b with
  | nil => rfl
  | cons c b ih =>
    show decodeHex (b.length + 1) (hexbyte _ :: hexbyte _ :: (digits b ++ rest)) = c :: b
    rw [decodeHex_succ, ih, unhex_hexbyte (nibble_lt _), unhex_hexbyte (nibble_lt _), join_nibbles]

/-- **A text of digits is that of the bytes read of it.** -/
theorem digits_decodeHex {n : Nat} {h : Text} (hlen : h.length = 2 * n) (hhex : ∀ c ∈ h, isHexDigit c) :
    digits (decodeHex n h) = h := by
  induction n generalizing h with
  | zero =>
    obtain rfl := List.length_eq_zero_iff.mp hlen
    rfl
  | succ n ih =>
    match h, hlen, hhex with
    | high :: low :: h, hlen, hhex =>
      obtain ⟨hhigh, hhex⟩ := List.forall_mem_cons.mp hhex
      obtain ⟨hlow, hhex⟩ := List.forall_mem_cons.mp hhex
      obtain ⟨hfirst, hsecond⟩ := split_nibbles (unhex_lt hhigh) (unhex_lt hlow)
      rw [decodeHex_succ, digits, List.flatMap_cons, ← digits, hfirst, hsecond, hexbyte_unhex hhigh, hexbyte_unhex hlow,
        ih (by simp only [List.length_cons] at hlen; omega) hhex]
      rfl

theorem length_digits (b : List (BitVec 8)) : (digits b).length = 2 * b.length := by
  induction b with
  | nil => rfl
  | cons c b ih =>
    show (digits b).length + 2 = 2 * (b.length + 1)
    omega

theorem null_notMem_digits (b : List (BitVec 8)) : '\x00' ∉ digits b := by
  intro hmem
  obtain ⟨d, -, hc⟩ := List.mem_flatMap.mp hmem
  rcases List.mem_pair.mp hc with hhigh | hlow
  · exact hexbyte_ne_null (nibble_lt _) hhigh.symm
  · exact hexbyte_ne_null (nibble_lt _) hlow.symm

theorem cString_initHexbytesNoT (b : List (BitVec 8)) : cString (initHexbytesNoT b).1 = digits b := by
  rw [initHexbytesNoT, cString_append (null_notMem_digits b), cString_cons_null, List.append_nil]

/-- **The codec of `init_hexbytes_noT` is a bijection.** -/
theorem initHexbytesNoT_bijection :
    (∀ b, decodeHex b.length (cString (initHexbytesNoT b).1) = b) ∧
      ∀ h, Even h.length → (∀ c ∈ h, isHexDigit c) → cString (initHexbytesNoT (decodeHex (h.length / 2) h)).1 = h := by
  refine ⟨fun b => ?_, fun h heven hhex => ?_⟩
  · rw [cString_initHexbytesNoT, ← List.append_nil (digits b)]
    exact decodeHex_digits b []
  · rw [cString_initHexbytesNoT]
    exact digits_decodeHex (Nat.two_mul_div_two_of_even heven).symm hhex

theorem initHexbytesNoT_bijection_at_00ff :
    decodeHex 2 (cString (initHexbytesNoT [0x00, 0xff]).1) = [0x00, 0xff] ∧
      cString (initHexbytesNoT (decodeHex 2 "00ff".toList)).1 = "00ff".toList := by
  have hhex : ∀ c ∈ ['0', '0', 'f', 'f'], isHexDigit c := by
    simp only [List.forall_mem_cons]
    exact ⟨by decide, by decide, by decide, by decide, List.forall_mem_nil _⟩
  exact ⟨initHexbytesNoT_bijection.1 [0x00, 0xff], initHexbytesNoT_bijection.2 "00ff".toList (by decide) hhex⟩

/-! ## Where `init_hexbytes` puts the null -/

theorem hexbytesLoop_digits (b : List (BitVec 8)) (i : Nat) (lastnonz : Int) :
    (hexbytesLoop b i lastnonz).1 = digits b := by
  induction b generalizing i lastnonz with
  | nil => rfl
  | cons c b ih =>
    rw [hexbytesLoop]
    by_cases hc : c = 0
    · rw [if_neg (not_not.mpr hc)]
      subst hc
      exact congrArg (fun hex => '0' :: '0' :: hex) (ih _ _)
    · rw [if_pos hc]
      exact congrArg (fun hex => hexbyte _ :: hexbyte _ :: hex) (ih _ _)

/-- The last byte of the message decides, unless it is zero. -/
theorem hexbytesLoop_concat (b : List (BitVec 8)) (c : BitVec 8) (i : Nat) (lastnonz : Int) :
    (hexbytesLoop (b ++ [c]) i lastnonz).2 =
      if c ≠ 0 then ((i + b.length : Nat) : Int) else (hexbytesLoop b i lastnonz).2 := by
  induction b generalizing i lastnonz with
  | nil =>
    show (hexbytesLoop [c] i lastnonz).2 = if c ≠ 0 then (i : Int) else lastnonz
    rw [hexbytesLoop]
    split <;> rfl
  | cons d b ih =>
    rw [List.cons_append, hexbytesLoop, hexbytesLoop, List.length_cons, Nat.add_comm b.length 1, ← Nat.add_assoc]
    by_cases hd : d = 0
    · rw [if_neg (not_not.mpr hd), if_neg (not_not.mpr hd)]
      exact ih _ _
    · rw [if_pos hd, if_pos hd]
      exact ih _ _

theorem lastnonz_eq_iff (b : List (BitVec 8)) :
    -1 ≤ (hexbytesLoop b 0 (-1)).2 ∧ (hexbytesLoop b 0 (-1)).2 < b.length ∧
      ((hexbytesLoop b 0 (-1)).2 + 1 = b.length ↔ b.getLast? ≠ some 0) := by
  induction b using List.reverseRecOn with
  | nil => exact ⟨le_rfl, by decide, by decide⟩
  | append_singleton b c ih =>
    obtain ⟨hlow, hhigh, -⟩ := ih
    rw [hexbytesLoop_concat, List.length_append, List.length_singleton, List.getLast?_concat]
    by_cases hc : c = 0
    · rw [if_neg (not_not.mpr hc), hc]
      refine ⟨hlow, by omega, ?_⟩
      exact iff_of_false (by omega) (fun h => h rfl)
    · rw [if_pos hc]
      refine ⟨by omega, by omega, ?_⟩
      exact iff_of_true (by omega) (fun h => hc (Option.some.inj h))

theorem cString_initHexbytes (b : List (BitVec 8)) :
    cString (initHexbytes b).1 = (digits b).take (((hexbytesLoop b 0 (-1)).2 + 1).toNat * 2) := by
  show cString ((hexbytesLoop b 0 (-1)).1.take _ ++ '\x00' :: _) = _
  rw [hexbytesLoop_digits, cString_append fun hmem => null_notMem_digits b (List.mem_of_mem_take hmem),
    cString_cons_null, List.append_nil]

/-- **Which bytes survive `init_hexbytes`**: those whose last one is not zero. What stands behind the null is unknown to
the reader. -/
theorem initHexbytes_survives_iff (b : List (BitVec 8)) :
    ((cString (initHexbytes b).1).length = 2 * b.length ∧
        ∀ rest, decodeHex b.length (cString (initHexbytes b).1 ++ '\x00' :: rest) = b) ↔ b.getLast? ≠ some 0 := by
  obtain ⟨hlow, hhigh, hiff⟩ := lastnonz_eq_iff b
  rw [cString_initHexbytes, ← hiff, List.length_take, length_digits]
  constructor
  · rintro ⟨hlen, -⟩
    omega
  · intro hlast
    have hall : ((hexbytesLoop b 0 (-1)).2 + 1).toNat * 2 = (digits b).length := by
      rw [length_digits]
      omega
    rw [hall, List.take_length, length_digits]
    exact ⟨Nat.min_self _, fun rest => decodeHex_digits b _⟩

/-- A key of 32 bytes whose last one is zero. -/
theorem not_forall_initHexbytes_survives :
    ¬ ∀ b : List (BitVec 8), b.length = 32 → (cString (initHexbytes b).1).length = 2 * b.length ∧
      ∀ rest, decodeHex b.length (cString (initHexbytes b).1 ++ '\x00' :: rest) = b := by
  intro h
  have hlen := (h (List.replicate 31 1 ++ [0]) rfl).1
  exact absurd hlen (by decide)

end NXTServices.Hex
