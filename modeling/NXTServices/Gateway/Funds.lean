import NXTServices.Numbers
import NXTServices.Gateway.Comment

/-!
# Amounts in JSON: `add_satoshis_json` and `get_satoshi_obj` of `utils/cJSON.c`, `gen_funds_json` of `genjson.h`

* `addSatoshisJson`, `genFundsJson` : an amount, and the totals of an account or a coin;
* `satoshiLoop_digits`, `satoshiLoop_decimal` : what is read of the text of a number;
* `getSatoshiObj_addSatoshisJson` : what is read of the item that was added;
* `addSatoshisJson_survives_iff`, `genFundsJson_survives_iff` : which amounts are read back.
-/

namespace NXTServices.Gateway
open Json hiding null true false
open Torrent (decimal)

/-! ## Writing -/

/-- The item is added behind the others of the object. -/
def addSatoshisJson (child : List (Text × Json)) (field : Text) (satoshis : BitVec 64) : List (Text × Json) :=
  child ++ [(field, satoshisJson satoshis)]

def BalanceInfo.fields (bp : BalanceInfo) : List (String × BitVec 64) :=
  [ ("deposits", bp.deposits),
    ("transfers", bp.transfers),
    ("withdraws", bp.withdraws),
    ("moneysends", bp.moneysends),
    ("remaining_transfers", bp.remainingTransfers),
    ("remaining_moneysends", bp.remainingMoneysends),
    ("balance", bp.balance) ]

def genFundsJson (bp : BalanceInfo) : Json :=
  object (bp.fields.foldl (fun child f => addSatoshisJson child f.1.toList f.2) [])

/-! ## Reading -/

theorem charVal_digit {c : Char} (hc : isDigit c) : charVal c - charVal '0' = ((c.toNat - '0'.toNat : Nat) : Int) := by
  obtain ⟨hlow, hhigh⟩ := toNat_of_isDigit hc
  have hzero : '0'.toNat = 48 := rfl
  unfold charVal
  rw [if_pos (by omega), if_pos (by omega), hzero]
  omega

theorem satoshiLoop_digits {s : Text} (h : ∀ c ∈ s, isDigit c) (rest : Text) (mult satoshis : BitVec 64) :
    satoshiLoop (s.reverse ++ rest) mult satoshis =
      satoshiLoop rest (mult * 10 ^ s.length) (satoshis + mult * BitVec.ofNat 64 (digitsValue s)) := by
  induction s using List.reverseRecOn generalizing mult satoshis with
  | nil =>
    show satoshiLoop rest mult satoshis = satoshiLoop rest (mult * 1) (satoshis + mult * 0)
    rw [mul_one, mul_zero, add_zero]
  | append_singleton s c ih =>
    obtain ⟨hs, hc⟩ := List.forall_mem_append.mp h
    rw [List.reverse_append, List.reverse_singleton, List.singleton_append, List.cons_append, satoshiLoop, ih hs,
      charVal_digit (hc c List.mem_cons_self), BitVec.ofInt_natCast, digitsValue_concat, List.length_append,
      List.length_singleton]
    have hmult : mult * 10 * 10 ^ s.length = mult * 10 ^ (s.length + 1) := by ring
    have hsplit (v d : Nat) : BitVec.ofNat 64 (10 * v + d) = 10 * BitVec.ofNat 64 v + BitVec.ofNat 64 d := by
      rw [BitVec.ofNat_add, BitVec.ofNat_mul]
      rfl
    have hsum (v d : BitVec 64) : satoshis + mult * d + mult * 10 * v = satoshis + mult * (10 * v + d) := by ring
    rw [hmult, hsplit, hsum]

/-- The sign is taken for the digit -3. -/
theorem satoshiLoop_decimal (n : Int) :
    satoshiLoop (decimal n).reverse 1 0 =
      if n < 0 then BitVec.ofNat 64 n.natAbs - 3 * 10 ^ (Nat.toDigits 10 n.natAbs).length
      else BitVec.ofNat 64 n.natAbs := by
  have hdigits : ∀ c ∈ Nat.toDigits 10 n.natAbs, isDigit c := fun c hc => isDigit_of_mem_toDigits hc
  unfold decimal
  by_cases hneg : n < 0
  · rw [if_pos hneg, if_pos hneg, List.reverse_cons, satoshiLoop_digits hdigits, digitsValue_toDigits]
    show 0 + 1 * BitVec.ofNat 64 n.natAbs + 1 * 10 ^ (Nat.toDigits 10 n.natAbs).length * -3 = _
    ring
  · rw [if_neg hneg, if_neg hneg, ← List.append_nil (Nat.toDigits 10 n.natAbs).reverse, satoshiLoop_digits hdigits,
      digitsValue_toDigits]
    show 0 + 1 * BitVec.ofNat 64 n.natAbs = _
    ring

theorem getSatoshiObj_satoshisJson {json : Json} {field : Text} {satoshis : BitVec 64}
    (hitem : getObjectItem json field = some (satoshisJson satoshis)) :
    getSatoshiObj json field = satoshiLoop (decimal satoshis.toInt).reverse 1 0 := by
  rw [getSatoshiObj, hitem, satoshisJson, copyCJSON_bare (bare_decimal _)]

theorem getSatoshiObj_addSatoshisJson {child : List (Text × Json)} {field : Text}
    (hnone : getObjectItem (object child) field = none) (satoshis : BitVec 64) :
    getSatoshiObj (object (addSatoshisJson child field satoshis)) field =
      satoshiLoop (decimal satoshis.toInt).reverse 1 0 := by
  apply getSatoshiObj_satoshisJson
  have hfind : (child.find? fun m => m.1.map tolower == field.map tolower) = none := Option.map_eq_none_iff.mp hnone
  show ((child ++ [(field, satoshisJson satoshis)]).find? _).map Prod.snd = _
  rw [List.find?_append, hfind, List.find?_singleton, if_pos (beq_self_eq_true _)]
  rfl

/-! ## Which amounts are read back -/

/-- Twice the number has to be three times a power of ten, which has one more digit, modulo `2 ^ 64`. -/
theorem sub_eq_neg_iff {n : Nat} (hpos : 0 < n) (hn : n ≤ 2 ^ 63) :
    BitVec.ofNat 64 n - 3 * 10 ^ (Nat.toDigits 10 n).length = -BitVec.ofNat 64 n ↔ n = 5776627963145224192 := by
  generalize hk : (Nat.toDigits 10 n).length = k
  have hk19 : k ≤ 19 := by
    rw [← hk]
    exact (Nat.length_toDigits_le_iff (by omega) (by omega)).mpr (by omega)
  have hupper : n < 10 ^ k := by
    have hlen : 0 < k := hk ▸ List.length_pos_of_ne_nil Nat.toDigits_ne_nil
    exact (Nat.length_toDigits_le_iff (by omega) (by omega)).mp hk.le
  have hdouble : BitVec.ofNat 64 n - 3 * 10 ^ k = -BitVec.ofNat 64 n ↔
      BitVec.ofNat 64 (2 * n) = BitVec.ofNat 64 (3 * 10 ^ k) := by
    have hsum : BitVec.ofNat 64 (2 * n) = BitVec.ofNat 64 n + BitVec.ofNat 64 n := by
      rw [Nat.two_mul, BitVec.ofNat_add]
    have hpow : BitVec.ofNat 64 (3 * 10 ^ k) = 3 * 10 ^ k := by
      rw [← BitVec.natCast_eq_ofNat]
      push_cast
      rfl
    rw [hsum, hpow, sub_eq_iff_eq_add, neg_add_eq_sub, eq_sub_iff_add_eq]
  rw [hdouble, ← BitVec.toNat_inj, BitVec.toNat_ofNat, BitVec.toNat_ofNat]
  interval_cases k <;> omega

theorem satoshiLoop_eq_iff (satoshis : BitVec 64) :
    satoshiLoop (decimal satoshis.toInt).reverse 1 0 = satoshis ↔
      0 ≤ satoshis.toInt ∨ satoshis.toInt = -5776627963145224192 := by
  have hlow := BitVec.le_toInt satoshis
  have hself : BitVec.ofInt 64 satoshis.toInt = satoshis := BitVec.ofInt_toInt
  rw [satoshiLoop_decimal]
  by_cases hneg : satoshis.toInt < 0
  · have habs : satoshis.toInt = -(satoshis.toInt.natAbs : Int) := by omega
    have hval : satoshis = -BitVec.ofNat 64 satoshis.toInt.natAbs := by
      rw [← BitVec.ofInt_natCast, ← BitVec.ofInt_neg, ← habs, hself]
    have hiff := sub_eq_neg_iff (n := satoshis.toInt.natAbs) (by omega) (by omega)
    rw [← hval] at hiff
    rw [if_pos hneg, hiff]
    omega
  · have habs : satoshis.toInt = (satoshis.toInt.natAbs : Int) := by omega
    rw [if_neg hneg, ← BitVec.ofInt_natCast, ← habs, hself]
    exact iff_of_true rfl (.inl (by omega))

/-- **Which amounts are read back**: those below `2 ^ 63`, and a single one above. -/
theorem addSatoshisJson_survives_iff {child : List (Text × Json)} {field : Text}
    (hnone : getObjectItem (object child) field = none) (satoshis : BitVec 64) :
    getSatoshiObj (object (addSatoshisJson child field satoshis)) field = satoshis ↔
      0 ≤ satoshis.toInt ∨ satoshis.toInt = -5776627963145224192 := by
  rw [getSatoshiObj_addSatoshisJson hnone]
  exact satoshiLoop_eq_iff satoshis

theorem addSatoshisJson_survives_iff_at_balance :
    getObjectItem (object []) "balance".toList = none ∧
      (getSatoshiObj (object (addSatoshisJson [] "balance".toList (-1))) "balance".toList = -1 ↔
        0 ≤ (-1 : BitVec 64).toInt ∨ (-1 : BitVec 64).toInt = -5776627963145224192) :=
  ⟨rfl, addSatoshisJson_survives_iff rfl (-1)⟩

/-- A balance of -1 is read as -29. -/
theorem not_forall_addSatoshisJson_survives :
    ¬ ∀ (child : List (Text × Json)) (field : Text) (satoshis : BitVec 64),
      getObjectItem (object child) field = none →
        getSatoshiObj (object (addSatoshisJson child field satoshis)) field = satoshis := by
  intro h
  have hread : getSatoshiObj (object (addSatoshisJson [] "balance".toList (-1))) "balance".toList = -29 := by decide
  have hself := h [] "balance".toList (-1) rfl
  rw [hread] at hself
  exact absurd hself (by decide)

theorem genFundsJson_survives_iff (bp : BalanceInfo) {name : String} {total : BitVec 64}
    (hfield : (name, total) ∈ bp.fields) :
    getSatoshiObj (genFundsJson bp) name.toList = total ↔ 0 ≤ total.toInt ∨ total.toInt = -5776627963145224192 := by
  have hobject : genFundsJson bp = objectOf (bp.fields.map fun f => (f.1, some (satoshisJson f.2))) := rfl
  have hitem : getObjectItem (genFundsJson bp) name.toList = some (satoshisJson total) := by
    rw [hobject]
    have hdistinct : ([ "deposits", "transfers", "withdraws", "moneysends", "remaining_transfers",
        "remaining_moneysends", "balance" ].map fun name => name.toList.map tolower).Nodup := by decide
    exact getObjectItem_objectOf hdistinct (List.mem_map.mpr ⟨(name, total), hfield, rfl⟩)
  rw [getSatoshiObj_satoshisJson hitem]
  exact satoshiLoop_eq_iff total

end NXTServices.Gateway
