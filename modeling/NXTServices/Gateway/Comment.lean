import NXTServices.Compact
import NXTServices.Gateway.Event

/-!
# The comment of an asset transfer: `genjson.h`, `multideposit.h`, `NXTprotocol.c` and `multigateway.h`

* `genCrosschainJson`, `transferComment` : the comment that a gateway sends with a transfer;
* `copyInto` : `copy_cJSON` with the buffer of its caller;
* `readComment`, `readCrosschain`, `readTransfer` : what every node reads of the transfer;
* `cJSONParse_comment` : the comment is parsed back to its JSON;
* `readTransfer_comment` : what is read of it;
* `crosschain_of_readTransfer` : the event of the same transfer has what is read.

`nxt64bitsJson` is the item that `add_nxt64bits_json` adds, a function that the repository calls and does not have.
-/

namespace NXTServices.Gateway
open Json hiding null true false
open Ledger (AssetAttachment readTransaction)
open Torrent (decimal)

/-! ## Writing -/

/-- The node of an `int32_t`. -/
def int32Json (n : Int) : Json := number (decimal (int32 n))

/-- The node of `add_satoshis_json`: the amount is printed with its sign. -/
def satoshisJson (satoshis : BitVec 64) : Json := string (decimal satoshis.toInt)

section
variable (nxt64bitsJson : BitVec 64 → Option Json)

def genNXTcrosschainJson (nxt : CrosschainNXTinfo) : Json :=
  objectOf
    [ ("AMtxid", nxt64bitsJson nxt.confirmedAMbits),
      ("asset_txid", nxt64bitsJson nxt.assetTxid),
      ("pending", some (int32Json nxt.pending)),
      ("confirmed", some (int32Json nxt.confirmed)) ]

/-- The items of `gen_crosschain_json` for the deposit `xp` of the output `vp`, which has a transaction. -/
def crosschainFields (coinid : Nat) (vp : CoinValue) (xp : CrosschainInfo) (msig : MultisigAddr) (nxtRTflag : Int)
    (nxtAddr : Text) : List (String × Option Json) :=
  [ ("crosschain", some (string (coinidStr coinid))),
    ("coin", some (string (coinidStr coinid))),
    ("coinid", some (int32Json coinid)),
    ("NXTaddr", some (string nxtAddr)),
    ("value", some (satoshisJson xp.value)),
    ("assetoshis", some (satoshisJson xp.assetoshis)),
    (String.ofList (coinidStr coinid), some (string msig.multisigaddr)),
    ("cointxid", some (string vp.parent)),
    ("coinaddr", some (string vp.coinaddr)),
    ("vout", some (int32Json vp.parentVout)),
    ("spent", vp.spent.map string),
    ("spent_vin", vp.spent.map fun _ => int32Json vp.spentVin),
    ("pending", if vp.spent = none then vp.pendingspend.map string else none),
    ("pending_vin", if vp.spent = none then vp.pendingspend.map fun _ => int32Json vp.pendingSpendvin else none),
    ("NXTRTflag", some (int32Json nxtRTflag)),
    ("NXTxfermask", some (int32Json xp.nxtXfermask)),
    ("coin_confirmed", some (int32Json xp.coinConfirmed)),
    ("isinternal", some (int32Json xp.isinternal)),
    ("NXTasset", if xp.nxt = {} then none else some (genNXTcrosschainJson nxt64bitsJson xp.nxt)) ]

/-- A deposit without a multisig address is a null read. -/
def genCrosschainJson (coinid : Nat) (vp : CoinValue) (xp : CrosschainInfo) (nxtRTflag : Int) (nxtAddr : Text) :
    Option Json :=
  xp.msig.map fun msig => objectOf (crosschainFields nxt64bitsJson coinid vp xp msig nxtRTflag nxtAddr)

/-- The comment that `authorize_asset_transfer` hands to `issue_transferAsset`. -/
def transferComment (coinid : Nat) (vp : CoinValue) (xp : CrosschainInfo) (nxtRTflag : Int) (nxtAddr : Text) :
    Option Text :=
  (genCrosschainJson nxt64bitsJson coinid vp xp nxtRTflag nxtAddr).map fun json => stripwhite (cJSONPrint json)

end

/-! ## Reading -/

/-- `copy_cJSON` into a buffer of `size` bytes, the last one for the null; `none` is a write behind its end. -/
def copyInto (size : Nat) (obj : Option Json) : Option Text :=
  if (copyCJSON obj).length < size then some (copyCJSON obj) else none

/-- `char comment[1024]` of `process_NXTtransaction`. -/
def readComment (attachment : Json) : Option Text := copyInto 1024 (getObjectItem attachment "comment".toList)

/-- What `multigateway_assetevent` makes of the comment of a transfer. -/
inductive Crosschain where
  /-- A buffer is written behind its end, and C says nothing about what follows. -/
  | overrun
  /-- The comment does not name the coin. -/
  | refused
  | read (coinname cointxid : Text) (vout assetoshis : Int)
deriving DecidableEq

/-- The branch of `multigateway_assetevent` for a comment with a field `crosschain`, on an asset of `coinid`, up to the
table of transactions: `char coinname[16],cointxid[64]`. -/
def readCrosschain (render : Text → Text) (coinid : Nat) (comment : Text) : Crosschain :=
  match cJSONParse render (replaceBackslashquotes comment) with
  | none => .refused
  | some json =>
    match getObjectItem json "crosschain".toList with
    | none => .refused
    | some obj =>
      match copyInto 16 (some obj) with
      | none => .overrun
      | some coinname =>
        if convCoinstr coinname = some coinid then
          let vout := int32 (getCJSONInt json "vout".toList)
          let assetoshis := getCJSONInt json "assetoshis".toList
          match copyInto 64 (getObjectItem json "cointxid".toList) with
          | none => .overrun
          | some cointxid => .read coinname cointxid vout assetoshis
        else .refused

/-- The transfer as the NXT node returns it, with its comment in the attachment. -/
def readTransfer (render : Text → Text) (coinid : Nat) (attachment : Json) : Crosschain :=
  match readComment attachment with
  | none => .overrun
  | some comment => readCrosschain render coinid comment

/-! ## The texts and numbers of a deposit -/

/-- Letters and digits. -/
def Alphanumeric (str : Text) : Prop := ∀ c ∈ str, isDigit c ∨ ('A' ≤ c ∧ c ≤ 'Z') ∨ ('a' ≤ c ∧ c ≤ 'z')

instance (str : Text) : Decidable (Alphanumeric str) := List.decidableBAll _ str

theorem Alphanumeric.bare {str : Text} (h : Alphanumeric str) : Bare str := by
  intro c hc
  have hrange : 48 ≤ c.toNat ∧ c.toNat ≤ 57 ∨ 65 ≤ c.toNat ∧ c.toNat ≤ 90 ∨ 97 ≤ c.toNat ∧ c.toNat ≤ 122 := by
    rcases h c hc with hdigit | ⟨hlow, hhigh⟩ | ⟨hlow, hhigh⟩
    · exact .inl (toNat_of_isDigit hdigit)
    · exact .inr (.inl ⟨UInt32.le_iff_toNat_le.mp hlow, UInt32.le_iff_toNat_le.mp hhigh⟩)
    · exact .inr (.inr ⟨UInt32.le_iff_toNat_le.mp hlow, UInt32.le_iff_toNat_le.mp hhigh⟩)
  refine ⟨by omega, ?_, ?_⟩
  · rintro rfl
    revert hrange
    decide
  · rintro rfl
    revert hrange
    decide

theorem bare_decimal (n : Int) : Bare (decimal n) := by
  have hdigits : ∀ c ∈ Nat.toDigits 10 n.natAbs, 32 < c.toNat ∧ c ≠ '"' ∧ c ≠ '\\' := fun c hc =>
    digit_induction (p := fun c => 32 < c.toNat ∧ c ≠ '"' ∧ c ≠ '\\') (by decide) (isDigit_of_mem_toDigits hc)
  unfold decimal
  split
  · exact List.forall_mem_cons.mpr ⟨by decide, hdigits⟩
  · exact hdigits

theorem int32_bounds (n : Int) : -2 ^ 31 ≤ int32 n ∧ int32 n < 2 ^ 31 := by
  have hlow := Int.le_bmod (x := n) (m := 2 ^ 32) (by norm_num)
  have hhigh := Int.bmod_lt (x := n) (m := 2 ^ 32) (by norm_num)
  unfold int32
  norm_num at hlow hhigh ⊢
  omega

theorem int32_eq {n : Int} (hlow : -2 ^ 31 ≤ n) (hhigh : n < 2 ^ 31) : int32 n = n := by
  unfold int32
  apply Int.bmod_eq_of_le <;> norm_num <;> omega

/-- The coins with a name. -/
def namedCoins : List Nat := [1, 2, 3, 4, 5, 7, 62, 63]

theorem mem_namedCoins {coinid : Nat} (h : coinidStr coinid ≠ illegalCoin) : coinid ∈ namedCoins := by
  unfold coinidStr at h
  simp only [namedCoins, List.mem_cons, List.not_mem_nil, or_false]
  split at h
  all_goals first | omega | exact absurd rfl h

theorem convCoinstr_coinidStr {coinid : Nat} (h : coinidStr coinid ≠ illegalCoin) :
    convCoinstr (coinidStr coinid) = some coinid := by
  have hall : ∀ k ∈ namedCoins, convCoinstr (coinidStr k) = some k := by decide +kernel
  exact hall coinid (mem_namedCoins h)

/-- The texts of a deposit are letters and digits. -/
structure Alphanumerics (vp : CoinValue) (xp : CrosschainInfo) (nxtAddr : Text) : Prop where
  cointxid : Alphanumeric vp.parent
  coinaddr : Alphanumeric vp.coinaddr
  spent : ∀ txid ∈ vp.spent, Alphanumeric txid
  pendingspend : ∀ txid ∈ vp.pendingspend, Alphanumeric txid
  multisigaddr : ∀ msig ∈ xp.msig, Alphanumeric msig.multisigaddr
  nxtAddr : Alphanumeric nxtAddr

/-- The numbers of 32 bits are printed as they are read. -/
def PrintsInt32 (render : Text → Text) : Prop :=
  ∀ n : Int, -2 ^ 31 ≤ n → n < 2 ^ 31 → render (decimal n) = decimal n

/-- The item is a string of letters and digits, if any. -/
def AddsAlphanumeric (nxt64bitsJson : BitVec 64 → Option Json) : Prop :=
  ∀ bits, ∀ item ∈ nxt64bitsJson bits, ∃ str, item = string str ∧ Alphanumeric str

section
variable {render : Text → Text} {nxt64bitsJson : BitVec 64 → Option Json} {coinid : Nat} {vp : CoinValue}
  {xp : CrosschainInfo} {msig : MultisigAddr} {nxtRTflag : Int} {nxtAddr : Text}

/-! ## The comment is parsed back -/

/-- The names of the items, of which one is the coin's. -/
def crosschainNames (coinname : Text) : List Text :=
  ["crosschain".toList, "coin".toList, "coinid".toList, "NXTaddr".toList, "value".toList, "assetoshis".toList, coinname,
    "cointxid".toList, "coinaddr".toList, "vout".toList, "spent".toList, "spent_vin".toList, "pending".toList,
    "pending_vin".toList, "NXTRTflag".toList, "NXTxfermask".toList, "coin_confirmed".toList, "isinternal".toList,
    "NXTasset".toList]

variable (nxt64bitsJson coinid vp xp msig nxtRTflag nxtAddr) in
theorem crosschainFields_names : (crosschainFields nxt64bitsJson coinid vp xp msig nxtRTflag nxtAddr).map
    (fun f => f.1.toList) = crosschainNames (coinidStr coinid) := by
  simp only [crosschainFields, crosschainNames, List.map_cons, List.map_nil, String.toList_ofList]

/-- No two names are the same, whatever the case of their letters. -/
theorem crosschainFields_nodup (hcoin : coinidStr coinid ≠ illegalCoin) :
    ((crosschainFields nxt64bitsJson coinid vp xp msig nxtRTflag nxtAddr).map
      fun f => f.1.toList.map tolower).Nodup := by
  have hall : ∀ k ∈ namedCoins, ((crosschainNames (coinidStr k)).map (List.map tolower)).Nodup := by decide +kernel
  have hnodup := hall coinid (mem_namedCoins hcoin)
  rwa [← crosschainFields_names nxt64bitsJson coinid vp xp msig nxtRTflag nxtAddr, List.map_map] at hnodup

theorem compact_int32Json (hrender : PrintsInt32 render) (n : Int) : Compact render (int32Json n) := by
  obtain ⟨hlow, hhigh⟩ := int32_bounds n
  exact numeral_decimal (hrender _ hlow hhigh)

theorem compact_satoshisJson (satoshis : BitVec 64) : Compact render (satoshisJson satoshis) :=
  bare_decimal satoshis.toInt

theorem compact_nxt64bitsJson (hbits : AddsAlphanumeric nxt64bitsJson) {bits : BitVec 64} {item : Json}
    (h : item ∈ nxt64bitsJson bits) : Compact render item := by
  obtain ⟨str, rfl, hstr⟩ := hbits bits item h
  exact hstr.bare

theorem compact_genNXTcrosschainJson (hrender : PrintsInt32 render) (hbits : AddsAlphanumeric nxt64bitsJson)
    (nxt : CrosschainNXTinfo) : Compact render (genNXTcrosschainJson nxt64bitsJson nxt) := by
  apply compact_objectOf
  simp only [List.forall_mem_cons, Option.mem_some_iff, forall_eq']
  refine ⟨⟨by decide, fun item h => compact_nxt64bitsJson hbits h⟩,
    ⟨by decide, fun item h => compact_nxt64bitsJson hbits h⟩, ⟨by decide, compact_int32Json hrender _⟩,
    ⟨by decide, compact_int32Json hrender _⟩, List.forall_mem_nil _⟩

theorem bare_crosschainNames (hcoin : coinidStr coinid ≠ illegalCoin) :
    ∀ name ∈ crosschainNames (coinidStr coinid), Bare name := by
  have hall : ∀ k ∈ namedCoins, ∀ name ∈ crosschainNames (coinidStr k), Bare name := by decide +kernel
  exact hall coinid (mem_namedCoins hcoin)

/-- **The JSON of a deposit is compact.** -/
theorem compact_crosschainFields (hrender : PrintsInt32 render) (hbits : AddsAlphanumeric nxt64bitsJson)
    (hcoin : coinidStr coinid ≠ illegalCoin) (htexts : Alphanumerics vp xp nxtAddr) (hmsig : msig ∈ xp.msig) :
    Compact render (objectOf (crosschainFields nxt64bitsJson coinid vp xp msig nxtRTflag nxtAddr)) := by
  have hname : Bare (coinidStr coinid) := bare_crosschainNames hcoin _ (by simp [crosschainNames])
  have hint : ∀ n, Compact render (int32Json n) := compact_int32Json hrender
  have hitems : ∀ f ∈ crosschainFields nxt64bitsJson coinid vp xp msig nxtRTflag nxtAddr, ∀ item ∈ f.2,
      Compact render item := by
    simp only [crosschainFields, List.forall_mem_cons, Option.mem_some_iff, forall_eq']
    refine ⟨hname, hname, hint _, htexts.nxtAddr.bare, compact_satoshisJson _, compact_satoshisJson _,
      (htexts.multisigaddr msig hmsig).bare, htexts.cointxid.bare, htexts.coinaddr.bare, hint _, ?spent, ?spentVin,
      ?pending, ?pendingVin, hint _, hint _, hint _, hint _, ?asset, List.forall_mem_nil _⟩
    case spent =>
      intro item hitem
      obtain ⟨txid, htxid, rfl⟩ := Option.map_eq_some_iff.mp hitem
      exact (htexts.spent txid htxid).bare
    case spentVin =>
      intro item hitem
      obtain ⟨txid, -, rfl⟩ := Option.map_eq_some_iff.mp hitem
      exact hint _
    case pending =>
      intro item hitem
      split at hitem
      · obtain ⟨txid, htxid, rfl⟩ := Option.map_eq_some_iff.mp hitem
        exact (htexts.pendingspend txid htxid).bare
      · cases hitem
    case pendingVin =>
      intro item hitem
      split at hitem
      · obtain ⟨txid, -, rfl⟩ := Option.map_eq_some_iff.mp hitem
        exact hint _
      · cases hitem
    case asset =>
      intro item hitem
      split at hitem
      · cases hitem
      · cases hitem
        exact compact_genNXTcrosschainJson hrender hbits xp.nxt
  apply compact_objectOf
  intro f hf
  refine ⟨bare_crosschainNames hcoin _ ?_, hitems f hf⟩
  rw [← crosschainFields_names nxt64bitsJson coinid vp xp msig nxtRTflag nxtAddr]
  exact List.mem_map_of_mem hf

theorem unbackslash_cons {c : Char} (hc : c ≠ '\\') (cs : Text) : unbackslash (c :: cs) = c :: unbackslash cs := by
  conv_lhs => unfold unbackslash
  split
  · next h => exact absurd (List.cons.inj h).1 hc
  · next h =>
    obtain ⟨rfl, rfl⟩ := List.cons.inj h
    rfl
  · next h => cases h

theorem unbackslash_flatMap {str : Text} (h : ∀ c ∈ str, isClear c) : unbackslash (str.flatMap escapeChar) = str := by
  induction str with
  | nil => rfl
  | cons c str ih =>
    obtain ⟨hc, hstr⟩ := List.forall_mem_cons.mp h
    obtain ⟨hlarge, hback⟩ := of_decide_eq_true hc
    rw [List.flatMap_cons]
    by_cases hquote : c = '"'
    · subst hquote
      show '"' :: unbackslash (str.flatMap escapeChar) = _
      rw [ih hstr]
    · have hchar : escapeChar c = [c] := if_pos ⟨hlarge, hquote, hback⟩
      rw [hchar, List.singleton_append, unbackslash_cons hback, ih hstr]

/-- **The text of an object comes back through both quotings**, its copy and its parse. -/
theorem cJSONParse_comment {ms : List (Text × Json)} (h : Compact render (object ms)) :
    cJSONParse render (replaceBackslashquotes ((flat (object ms)).flatMap escapeChar)) = some (object ms) := by
  have hreplace : replaceBackslashquotes ((flat (object ms)).flatMap escapeChar) =
      unbackslash ((flat (object ms)).flatMap escapeChar) := rfl
  rw [hreplace, unbackslash_flatMap (flat_clear (object ms) h)]
  exact cJSONParse_flat h

/-! ## What is read of it -/

theorem copyInto_eq {size : Nat} {obj : Option Json} {str : Text} (hcopy : copyCJSON obj = str) :
    copyInto size obj = if str.length < size then some str else none := by
  rw [copyInto, hcopy]

theorem copyCJSON_bare {str : Text} (h : Bare str) : copyCJSON (some (string str)) = str := by
  rw [copyCJSON_string, h.unescaped.flatMap_escapeChar]

theorem copyCJSON_decimal (n : Int) : copyCJSON (some (number (decimal n))) = decimal n := by
  show stripquotes (decimal n) = decimal n
  unfold stripquotes
  split
  · next cs h => exact absurd rfl (bare_decimal n '"' (h ▸ List.mem_cons_self)).2.1
  · rfl

theorem getCJSONInt_of_decimal {json : Json} {field : Text} {n : Int}
    (hcopy : copyCJSON (getObjectItem json field) = decimal n) (hlow : -2 ^ 63 ≤ n) (hhigh : n < 2 ^ 63) :
    getCJSONInt json field = n := by
  unfold getCJSONInt
  split
  · next hnone =>
    rw [hnone] at hcopy
    exact absurd hcopy.symm (decimal_ne_nil n)
  · next numjson hsome =>
    rw [← hsome, hcopy]
    exact atol_decimal hlow hhigh

theorem length_coinidStr (coinid : Int) : (coinidStr coinid).length < 16 := by
  unfold coinidStr
  split <;> decide

/-- **What is read of the comment of a deposit**: all four values, when the transaction id leaves room for the null. -/
theorem readCrosschain_comment (hrender : PrintsInt32 render) (hbits : AddsAlphanumeric nxt64bitsJson)
    (hcoin : coinidStr coinid ≠ illegalCoin) (htexts : Alphanumerics vp xp nxtAddr) (hmsig : msig ∈ xp.msig)
    (hvout : vp.parentVout < 2 ^ 31) :
    readCrosschain render coinid
        ((flat (objectOf (crosschainFields nxt64bitsJson coinid vp xp msig nxtRTflag nxtAddr))).flatMap escapeChar) =
      if vp.parent.length < 64 then .read (coinidStr coinid) vp.parent vp.parentVout xp.assetoshis.toInt
      else .overrun := by
  have hcompact : Compact render (objectOf (crosschainFields nxt64bitsJson coinid vp xp msig nxtRTflag nxtAddr)) :=
    compact_crosschainFields hrender hbits hcoin htexts hmsig
  have hnodup : ((crosschainFields nxt64bitsJson coinid vp xp msig nxtRTflag nxtAddr).map
      fun f => f.1.toList.map tolower).Nodup := crosschainFields_nodup hcoin
  have hparse := cJSONParse_comment hcompact
  have hname : Bare (coinidStr coinid) := bare_crosschainNames hcoin _ (by simp [crosschainNames])
  change cJSONParse render (replaceBackslashquotes ((flat (objectOf _)).flatMap escapeChar)) =
    some (objectOf _) at hparse
  generalize hfields : crosschainFields nxt64bitsJson coinid vp xp msig nxtRTflag nxtAddr = fields at hparse hnodup ⊢
  have hget {name : String} {item : Option Json} (hmem : (name, item) ∈ fields) :
      getObjectItem (objectOf fields) name.toList = item := getObjectItem_objectOf hnodup hmem
  have hcross : getObjectItem (objectOf fields) "crosschain".toList = some (string (coinidStr coinid)) :=
    hget (by rw [← hfields]; simp [crosschainFields])
  have hcointxid : getObjectItem (objectOf fields) "cointxid".toList = some (string vp.parent) :=
    hget (by rw [← hfields]; simp [crosschainFields])
  have hvoutItem : getObjectItem (objectOf fields) "vout".toList = some (int32Json vp.parentVout) :=
    hget (by rw [← hfields]; simp [crosschainFields])
  have hassetItem : getObjectItem (objectOf fields) "assetoshis".toList = some (satoshisJson xp.assetoshis) :=
    hget (by rw [← hfields]; simp [crosschainFields])
  have hvoutInt : int32 vp.parentVout = vp.parentVout := int32_eq (by omega) (by omega)
  have hvoutRead : getCJSONInt (objectOf fields) "vout".toList = vp.parentVout := by
    apply getCJSONInt_of_decimal _ (by omega) (by omega)
    rw [hvoutItem, int32Json, hvoutInt, copyCJSON_decimal]
  have hassetRead : getCJSONInt (objectOf fields) "assetoshis".toList = xp.assetoshis.toInt := by
    apply getCJSONInt_of_decimal _ (BitVec.le_toInt xp.assetoshis) BitVec.toInt_lt
    rw [hassetItem, satoshisJson, copyCJSON_bare (bare_decimal _)]
  unfold readCrosschain
  simp only [hparse, hcross, copyInto_eq (copyCJSON_bare hname), if_pos (length_coinidStr coinid),
    if_pos (convCoinstr_coinidStr hcoin), hvoutRead, hvoutInt, hassetRead, hcointxid,
    copyInto_eq (copyCJSON_bare htexts.cointxid.bare)]
  by_cases hlen : vp.parent.length < 64
  · rw [if_pos hlen, if_pos hlen]
  · rw [if_neg hlen, if_neg hlen]

/-- The NXT node returns the comment of the transfer as a string. -/
theorem readTransfer_comment (hrender : PrintsInt32 render) (hbits : AddsAlphanumeric nxt64bitsJson)
    (hcoin : coinidStr coinid ≠ illegalCoin) (htexts : Alphanumerics vp xp nxtAddr) (hvout : vp.parentVout < 2 ^ 31)
    {text : Text} (htext : transferComment nxt64bitsJson coinid vp xp nxtRTflag nxtAddr = some text) {attachment : Json}
    (hnode : getObjectItem attachment "comment".toList = some (string text)) :
    readTransfer render coinid attachment =
      if (text.flatMap escapeChar).length < 1024 ∧ vp.parent.length < 64 then
        .read (coinidStr coinid) vp.parent vp.parentVout xp.assetoshis.toInt
      else .overrun := by
  obtain ⟨json, hjson, rfl⟩ := Option.map_eq_some_iff.mp htext
  obtain ⟨msig, hmsig, rfl⟩ := Option.map_eq_some_iff.mp hjson
  unfold readTransfer readComment
  rw [hnode, copyInto_eq (copyCJSON_string _), stripwhite_cJSONPrint]
  by_cases hfits : ((flat (objectOf (crosschainFields nxt64bitsJson coinid vp xp msig nxtRTflag nxtAddr))).flatMap
      escapeChar).length < 1024
  · rw [if_pos hfits]
    simp only [hfits, true_and]
    exact readCrosschain_comment hrender hbits hcoin htexts hmsig hvout
  · rw [if_neg hfits, if_neg fun h => hfits h.1]

/-- **The comment survives the chain** exactly when its copy fits its buffer, and the transaction id its own. -/
theorem readTransfer_eq_read_iff (hrender : PrintsInt32 render) (hbits : AddsAlphanumeric nxt64bitsJson)
    (hcoin : coinidStr coinid ≠ illegalCoin) (htexts : Alphanumerics vp xp nxtAddr) (hvout : vp.parentVout < 2 ^ 31)
    {text : Text} (htext : transferComment nxt64bitsJson coinid vp xp nxtRTflag nxtAddr = some text) {attachment : Json}
    (hnode : getObjectItem attachment "comment".toList = some (string text)) :
    readTransfer render coinid attachment =
        .read (coinidStr coinid) vp.parent vp.parentVout xp.assetoshis.toInt ↔
      (text.flatMap escapeChar).length < 1024 ∧ vp.parent.length < 64 := by
  rw [readTransfer_comment hrender hbits hcoin htexts hvout htext hnode]
  split
  · next hfits => exact iff_of_true rfl hfits
  · next hfits => exact iff_of_false (by simp) hfits

end

/-! ## The transfer as an event -/

theorem eq_of_copyInto {size : Nat} {obj : Option Json} {str : Text} (h : copyInto size obj = some str) :
    copyCJSON obj = str := by
  unfold copyInto at h
  split at h
  · exact Option.some.inj h
  · cases h

theorem comment_of_readComment {json attachment : Json} {a : AssetAttachment} {comment : Text}
    (hattachment : getObjectItem json "attachment".toList = some attachment)
    (hasset : (readTransaction json).asset = some a) (hread : readComment attachment = some comment) :
    a.comment = comment := by
  simp only [readTransaction, hattachment, Option.bind_some] at hasset
  obtain ⟨assetjson, -, rfl⟩ := Option.map_eq_some_iff.mp hasset
  exact eq_of_copyInto hread

section
variable {render : Text → Text} {coinid : Nat} {coinname cointxid : Text} {vout assetoshis : Int}

theorem readCrosschain_eq_read {comment : Text}
    (h : readCrosschain render coinid comment = .read coinname cointxid vout assetoshis) :
    ∃ json obj, cJSONParse render (replaceBackslashquotes comment) = some json ∧
      getObjectItem json "crosschain".toList = some obj ∧ copyCJSON (some obj) = coinname ∧
      copyCJSON (getObjectItem json "cointxid".toList) = cointxid ∧ int32 (getCJSONInt json "vout".toList) = vout := by
  unfold readCrosschain at h
  split at h
  · cases h
  · next json hjson =>
    split at h
    · cases h
    · next obj hobj =>
      split at h
      · cases h
      · next name hname =>
        split at h
        · split at h
          · cases h
          · next txid htxid =>
            obtain ⟨rfl, rfl, rfl, rfl⟩ := Crosschain.read.inj h
            exact ⟨json, obj, hjson, hobj, eq_of_copyInto hname, eq_of_copyInto htxid, rfl⟩
        · cases h

/-- Where the buffers hold what is read, the event has the coin, the transaction and the output. -/
theorem crosschain_of_readTransfer {json attachment : Json} {a : AssetAttachment}
    (hattachment : getObjectItem json "attachment".toList = some attachment)
    (hasset : (readTransaction json).asset = some a)
    (hread : readTransfer render coinid attachment = .read coinname cointxid vout assetoshis) {ev : AssetEvent}
    (hev : ev.comment = some a.comment) : ev.crosschain render = some (coinname, cointxid, vout) := by
  obtain ⟨comment, hcomment, hread⟩ : ∃ comment, readComment attachment = some comment ∧
      readCrosschain render coinid comment = .read coinname cointxid vout assetoshis := by
    unfold readTransfer at hread
    split at hread
    · cases hread
    · next comment hcomment => exact ⟨comment, hcomment, hread⟩
  obtain ⟨json', obj, hjson, hobj, hcoinname, hcointxid, hvout⟩ := readCrosschain_eq_read hread
  have htext : ev.text = replaceBackslashquotes comment := by
    rw [AssetEvent.text, hev, comment_of_readComment hattachment hasset hcomment]
  unfold AssetEvent.crosschain
  rw [htext, hjson]
  simp only [hobj, Option.map_some, hcoinname, hcointxid, hvout]

end

/-! ## A deposit of bitcoins -/

def smallMsig : MultisigAddr := { nxtAddr := "3".toList, multisigaddr := "3A".toList, m := 2, n := 3, coinid := 1 }

def smallDeposit : CrosschainInfo :=
  { nxt64bits := 3#64, value := 500#64, assetoshis := 500#64, msig := some smallMsig, nxtXfermask := 1,
    coinConfirmed := 1 }

def smallOutput (cointxid : Text) : CoinValue :=
  { value := 500#64, parent := cointxid, parentVout := 1, coinaddr := "3A".toList }

/-- An item for every number. -/
def numberItem (bits : BitVec 64) : Option Json := some (string (Nat.toDigits 10 bits.toNat))

theorem numberItem_alphanumeric : AddsAlphanumeric numberItem := by
  rintro bits item ⟨⟩
  exact ⟨_, rfl, fun c hc => .inl (isDigit_of_mem_toDigits hc)⟩

theorem alphanumerics_small {cointxid : Text} (h : Alphanumeric cointxid) :
    Alphanumerics (smallOutput cointxid) smallDeposit "3".toList where
  cointxid := h
  coinaddr := by
    show Alphanumeric "3A".toList
    decide
  spent := fun _ hspent => by cases hspent
  pendingspend := fun _ hpending => by cases hpending
  multisigaddr := by decide
  nxtAddr := by decide

/-- The comment of the deposit. -/
def smallComment (cointxid : Text) : Text :=
  (transferComment numberItem 1 (smallOutput cointxid) smallDeposit 7 "3".toList).getD []

theorem transferComment_small (cointxid : Text) :
    transferComment numberItem 1 (smallOutput cointxid) smallDeposit 7 "3".toList = some (smallComment cointxid) := rfl

/-- The attachment of the transfer. -/
def smallAttachment (cointxid : Text) : Json := object [("comment".toList, string (smallComment cointxid))]

theorem getObjectItem_small (cointxid : Text) :
    getObjectItem (smallAttachment cointxid) "comment".toList = some (string (smallComment cointxid)) := rfl

theorem readTransfer_eq_read_iff_small :
    readTransfer id 1 (smallAttachment "a1b2".toList) = .read "BTC".toList "a1b2".toList 1 500 :=
  (readTransfer_eq_read_iff (fun _ _ _ => rfl) numberItem_alphanumeric (by decide) (alphanumerics_small (by decide))
    (by decide) (transferComment_small "a1b2".toList) (getObjectItem_small "a1b2".toList)).mpr
    ⟨by decide +kernel, by decide⟩

/-- Every transaction id of bitcoin has 64 characters. -/
def bitcoinTxid : Text := "a1b2c3d4e5f60718a1b2c3d4e5f60718a1b2c3d4e5f60718a1b2c3d4e5f60718".toList

/-- The transaction id of a bitcoin deposit is written behind the end of its buffer. -/
theorem not_forall_readTransfer_eq_read :
    ¬ ∀ (coinid : Nat) (vp : CoinValue) (xp : CrosschainInfo) (nxtRTflag : Int) (nxtAddr text : Text)
        (attachment : Json), coinidStr coinid ≠ illegalCoin → Alphanumerics vp xp nxtAddr → vp.parentVout < 2 ^ 31 →
      0 ≤ xp.assetoshis.toInt → (text.flatMap escapeChar).length < 1024 →
      transferComment numberItem coinid vp xp nxtRTflag nxtAddr = some text →
      getObjectItem attachment "comment".toList = some (string text) →
      readTransfer id coinid attachment =
        .read (coinidStr coinid) vp.parent vp.parentVout xp.assetoshis.toInt := by
  intro h
  have htexts : Alphanumerics (smallOutput bitcoinTxid) smallDeposit "3".toList :=
    alphanumerics_small (by decide +kernel)
  have htext := transferComment_small bitcoinTxid
  have hnode := getObjectItem_small bitcoinTxid
  have hread := h 1 (smallOutput bitcoinTxid) smallDeposit 7 "3".toList (smallComment bitcoinTxid)
    (smallAttachment bitcoinTxid) (by decide) htexts (by decide) (by decide) (by decide +kernel) htext hnode
  rw [readTransfer_comment (fun _ _ _ => rfl) numberItem_alphanumeric (by decide) htexts (by decide) htext hnode,
    if_neg (by decide +kernel)] at hread
  cases hread

end NXTServices.Gateway
