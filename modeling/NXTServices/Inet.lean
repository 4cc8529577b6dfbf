import NXTServices.Compact

/-!
# Ports and addresses in text: `strtoul`, `inet_ntoa` and `inet_addr` of the C library

* `strtoul` : with base 0, so that the text says how it is to be read;
* `inetNtoa`, `inetAddr` : an address of four bytes, as its number in host order;
* `strtoul_toDigits` : a number without a sign is read up to its end;
* `inetAddr_inetNtoa` : an address that was printed is read back.
-/

namespace NXTServices.Inet
open Json (toDigits_cons toDigits_head digit_induction isDigit_of_mem_toDigits toNat_of_isDigit)

/-! ## Reading and writing -/

/-- Letters are digits above 9; any other character is none. -/
def digitVal (c : Char) : Nat :=
  if isDigit c then c.toNat - '0'.toNat
  else if 'a' ≤ c ∧ c ≤ 'z' then c.toNat - 'a'.toNat + 10
  else if 'A' ≤ c ∧ c ≤ 'Z' then c.toNat - 'A'.toNat + 10
  else 36

/-- The number that the digits in front spell, and the text behind them. -/
def readDigits (base : Nat) (s : Text) : Nat × Text :=
  ((s.takeWhile fun c => digitVal c < base).foldl (fun n c => base * n + digitVal c) 0,
    s.dropWhile fun c => digitVal c < base)

/-- The prefix of the number says what its base is. -/
def readNumber : Text → Nat × Text
  | '0' :: x :: c :: cs =>
    if (x = 'x' ∨ x = 'X') ∧ digitVal c < 16 then readDigits 16 (c :: cs) else readDigits 8 ('0' :: x :: c :: cs)
  | '0' :: cs => readDigits 8 ('0' :: cs)
  | cs => readDigits 10 cs

/-- The number and the text behind it. A text without a number is not read, and gives 0. -/
def strtoul (s : Text) : Nat × Text :=
  let (neg, s) := match s.dropWhile isSpace with
    | '-' :: cs => (true, cs)
    | '+' :: cs => (false, cs)
    | cs => (false, cs)
  let (n, rest) := readNumber s
  (if 2 ^ 64 ≤ n then 2 ^ 64 - 1 else if neg then (2 ^ 64 - n) % 2 ^ 64 else n, rest)

/-- The four bytes of the address. -/
def inetNtoa (ip : BitVec 32) : Text :=
  Nat.toDigits 10 (ip.toNat / 2 ^ 24) ++ '.' :: (Nat.toDigits 10 (ip.toNat / 2 ^ 16 % 256) ++ '.' ::
    (Nat.toDigits 10 (ip.toNat / 2 ^ 8 % 256) ++ '.' :: Nat.toDigits 10 (ip.toNat % 256)))

/-- At most `n` numbers with dots between them; white space ends the address. -/
def inetParts : Nat → Text → Option (List Nat)
  | 0, _ => none
  | _ + 1, [] => none
  | n + 1, c :: cs =>
    if isDigit c then
      match strtoul (c :: cs) with
      | (v, []) => some [v]
      | (v, d :: rest) =>
        if d = '.' then (inetParts n rest).map (v :: ·) else if isSpace d then some [v] else none
    else none

/-- The last number fills the bytes that are left. -/
def inetNumber : List Nat → Option (BitVec 32)
  | [a] => if a < 2 ^ 32 then some (BitVec.ofNat 32 a) else none
  | [a, b] => if a < 256 ∧ b < 2 ^ 24 then some (BitVec.ofNat 32 (2 ^ 24 * a + b)) else none
  | [a, b, c] =>
    if a < 256 ∧ b < 256 ∧ c < 2 ^ 16 then some (BitVec.ofNat 32 (2 ^ 24 * a + 2 ^ 16 * b + c)) else none
  | [a, b, c, d] =>
    if a < 256 ∧ b < 256 ∧ c < 256 ∧ d < 256 then
      some (BitVec.ofNat 32 (2 ^ 24 * a + 2 ^ 16 * b + 2 ^ 8 * c + d))
    else none
  | _ => none

/-- `INADDR_NONE` when it is no address. -/
def inetAddr (s : Text) : BitVec 32 := ((inetParts 4 s).bind inetNumber).getD (BitVec.allOnes 32)

/-! ## Numbers -/

/-- No letter and no digit stands behind the number. -/
def Stops (rest : Text) : Prop := ∀ c ∈ rest.head?, digitVal c = 36

theorem stops_nil : Stops [] := fun c hc => absurd hc (Option.not_mem_none c)

section
variable {ds rest : Text} {n : Nat}

theorem readDigits_append {base : Nat} (hbase : base ≤ 36) (hds : ∀ c ∈ ds, digitVal c < base) (hrest : Stops rest) :
    readDigits base (ds ++ rest) = (ds.foldl (fun n c => base * n + digitVal c) 0, rest) := by
  have hds : ∀ c ∈ ds, decide (digitVal c < base) := fun c hc => decide_eq_true (hds c hc)
  have hstop : (rest.takeWhile fun c => digitVal c < base) = [] ∧
      (rest.dropWhile fun c => digitVal c < base) = rest := by
    cases rest with
    | nil => exact ⟨rfl, rfl⟩
    | cons c rest =>
      have hc : ¬ decide (digitVal c < base) = true := by
        rw [decide_eq_true_eq, hrest c rfl]
        omega
      exact ⟨List.takeWhile_cons_of_neg hc, List.dropWhile_cons_of_neg hc⟩
  unfold readDigits
  rw [List.takeWhile_append_of_pos hds, List.dropWhile_append_of_pos hds, hstop.1, hstop.2, List.append_nil]

theorem digitVal_of_isDigit {c : Char} (hc : isDigit c) : digitVal c = c.toNat - '0'.toNat := if_pos hc

theorem digitVal_lt_ten {c : Char} (hc : isDigit c) : digitVal c < 10 := by
  obtain ⟨hlow, hhigh⟩ := toNat_of_isDigit hc
  have hzero : '0'.toNat = 48 := rfl
  rw [digitVal_of_isDigit hc]
  omega

theorem foldl_digitVal (h : ∀ c ∈ ds, isDigit c) (n : Nat) :
    ds.foldl (fun n c => 10 * n + digitVal c) n = Nat.ofDigitChars 10 ds n := by
  induction ds generalizing n with
  | nil => rfl
  | cons c ds ih =>
    obtain ⟨hc, hds⟩ := List.forall_mem_cons.mp h
    rw [List.foldl_cons, ih hds, Nat.ofDigitChars_cons, digitVal_of_isDigit hc]

theorem readDigits_toDigits (n : Nat) (hrest : Stops rest) : readDigits 10 (Nat.toDigits 10 n ++ rest) = (n, rest) := by
  have hdigits : ∀ c ∈ Nat.toDigits 10 n, isDigit c := fun _ hc => isDigit_of_mem_toDigits hc
  rw [readDigits_append (by decide) (fun c hc => digitVal_lt_ten (hdigits c hc)) hrest, foldl_digitVal hdigits,
    Nat.ofDigitChars_ten_toDigits]

theorem readNumber_toDigits (n : Nat) (hrest : Stops rest) : readNumber (Nat.toDigits 10 n ++ rest) = (n, rest) := by
  by_cases hzero : n = 0
  · subst hzero
    have hzero : ∀ c ∈ ['0'], digitVal c < 8 := List.forall_mem_singleton.mpr (by decide)
    have hread : readDigits 8 ('0' :: rest) = (0, rest) := readDigits_append (by decide) hzero hrest
    show readNumber ('0' :: rest) = (0, rest)
    rw [← hread]
    cases rest with
    | nil => rfl
    | cons x rest =>
      have hx : ¬ (x = 'x' ∨ x = 'X') := by
        have hval := hrest x rfl
        rintro (rfl | rfl)
        · exact absurd hval (by decide)
        · exact absurd hval (by decide)
      cases rest with
      | nil => rfl
      | cons c rest => exact if_neg fun h => hx h.1
  · have hread := readDigits_toDigits n hrest
    obtain ⟨c, cs, heq, hc⟩ := toDigits_cons hzero
    rw [heq, List.cons_append] at hread ⊢
    rw [← hread]
    unfold readNumber
    split
    · next h => exact absurd (List.cons.inj h).1 hc
    · next h => exact absurd (List.cons.inj h).1 hc
    · rfl

/-- **A number is read up to its end.** -/
theorem strtoul_toDigits (hn : n < 2 ^ 64) (hrest : Stops rest) : strtoul (Nat.toDigits 10 n ++ rest) = (n, rest) := by
  have hread := readNumber_toDigits n hrest
  obtain ⟨c, cs, heq, hdigit⟩ := toDigits_head n
  have hspace : ¬ isSpace c := digit_induction (p := fun c => ¬ isSpace c) (by decide) hdigit
  have hsign : c ≠ '-' ∧ c ≠ '+' := digit_induction (p := fun c => c ≠ '-' ∧ c ≠ '+') (by decide) hdigit
  rw [heq, List.cons_append] at hread ⊢
  unfold strtoul
  rw [List.dropWhile_cons_of_neg hspace]
  split
  next neg s hsplit =>
    split at hsplit
    · next h => exact absurd (List.cons.inj h).1 hsign.1
    · next h => exact absurd (List.cons.inj h).1 hsign.2
    · obtain ⟨rfl, rfl⟩ := Prod.mk.inj hsplit
      rw [hread]
      dsimp only
      rw [if_neg (by omega)]
      rfl

/-! ## Addresses -/

theorem inetParts_dot {k : Nat} (hn : n < 256) (rest : Text) :
    inetParts (k + 1) (Nat.toDigits 10 n ++ '.' :: rest) = (inetParts k rest).map (n :: ·) := by
  have hread : strtoul (Nat.toDigits 10 n ++ '.' :: rest) = (n, '.' :: rest) :=
    strtoul_toDigits (by omega) fun c hc => by
      obtain rfl := Option.some.inj hc
      decide
  obtain ⟨c, cs, heq, hdigit⟩ := toDigits_head n
  rw [heq, List.cons_append] at hread ⊢
  rw [inetParts, if_pos hdigit, hread]
  exact if_pos rfl

theorem inetParts_last {k : Nat} (hn : n < 256) : inetParts (k + 1) (Nat.toDigits 10 n) = some [n] := by
  have hread : strtoul (Nat.toDigits 10 n) = (n, []) := by
    have happend : strtoul (Nat.toDigits 10 n ++ []) = (n, []) := strtoul_toDigits (by omega) stops_nil
    rwa [List.append_nil] at happend
  obtain ⟨c, cs, heq, hdigit⟩ := toDigits_head n
  rw [heq] at hread ⊢
  rw [inetParts, if_pos hdigit, hread]

/-- **An address that was printed is read back.** -/
theorem inetAddr_inetNtoa (ip : BitVec 32) : inetAddr (inetNtoa ip) = ip := by
  have hlt := ip.isLt
  have hparts : inetParts 4 (inetNtoa ip) =
      some [ip.toNat / 2 ^ 24, ip.toNat / 2 ^ 16 % 256, ip.toNat / 2 ^ 8 % 256, ip.toNat % 256] := by
    unfold inetNtoa
    rw [inetParts_dot (by omega), inetParts_dot (Nat.mod_lt _ (by decide)), inetParts_dot (Nat.mod_lt _ (by decide)),
      inetParts_last (Nat.mod_lt _ (by decide))]
    rfl
  have hsum : 2 ^ 24 * (ip.toNat / 2 ^ 24) + 2 ^ 16 * (ip.toNat / 2 ^ 16 % 256) + 2 ^ 8 * (ip.toNat / 2 ^ 8 % 256) +
      ip.toNat % 256 = ip.toNat := by omega
  unfold inetAddr
  rw [hparts, Option.bind_some, inetNumber, if_pos (by omega), hsum, Option.getD_some, BitVec.ofNat_toNat,
    BitVec.setWidth_eq]

theorem mem_inetNtoa {ip : BitVec 32} {c : Char} (h : c ∈ inetNtoa ip) : isDigit c ∨ c = '.' := by
  simp only [inetNtoa, List.mem_append, List.mem_cons] at h
  rcases h with h | rfl | h | rfl | h | rfl | h
  · exact .inl (isDigit_of_mem_toDigits h)
  · exact .inr rfl
  · exact .inl (isDigit_of_mem_toDigits h)
  · exact .inr rfl
  · exact .inl (isDigit_of_mem_toDigits h)
  · exact .inr rfl
  · exact .inl (isDigit_of_mem_toDigits h)

end

end NXTServices.Inet
