import NXTServices.Gateway.State

/-!
# Scanning a coin transaction: `multigateway/bitcoin.h` and the deposits of `multideposit.h`

* `addConfirmedDeposit`, `updateCrosschainInfo`, `updateCoinValue` : an output is seen;
* `processVouts`, `processVins`, `updateCoinValues` : a decoded transaction is seen;
* `scan` : the work of `add_bitcoind_uniquetxids` for one transaction of a block.

`satoshis` turns the text of an amount into `(int64_t)(atof(text) * SATOSHIDEN)`, and `am` is the
answer of `broadcast_depositconfirmedAM` for each output. A step through a null or a stray pointer is
`none`.
-/

namespace NXTServices.Gateway
open Json

/-! ## An output -/

/-- `xp_NXTaddr`. -/
def xpNXTaddr (xp : CrosschainInfo) : Text :=
  match xp.msig with
  | some msig => msig.nxtAddr
  | none => "<no NXTaddr>".toList

/-- Is an account of this gateway's share? -/
def assigned (c : Coin) (nxt64bits : BitVec 64) : Prop := (nxt64bits.toNat % numGateways : Int) = c.gatewayid

instance (c : Coin) (nxt64bits : BitVec 64) : Decidable (assigned c nxt64bits) :=
  inferInstanceAs (Decidable (_ = _))

/-- The deposit `xp` of the output at `r` is listed and credited. -/
def addConfirmedDeposit (c : Coin) (s : Replica) (t : Text) (r : Nat) (xp : CrosschainInfo)
    (am : BitVec 64) : Replica × CrosschainInfo :=
  let s := { s with xps := s.xps ++ [r] }
  let confirmedAMbits :=
    if (s.tp t).confirmedAMbits = 0#64 then
      if xp.nxt.confirmedAMbits = 0#64 ∧ assigned c xp.nxt64bits then am else xp.nxt.confirmedAMbits
    else (s.tp t).confirmedAMbits
  (depositNXTacct c s (xpNXTaddr xp) xp.value,
    { xp with nxt := { xp.nxt with confirmedAMbits := confirmedAMbits } })

/-- `xp` is the deposit of the output `vout` of `t`, which is at `r`. -/
def updateCrosschainInfo (c : Coin) (s : Replica) (t : Text) (r vout isconfirmed : Nat)
    (xp : CrosschainInfo) (value : BitVec 64) (coinaddr : Text) (am : BitVec 64) :
    Replica × CrosschainInfo :=
  let xp := { xp with value := value, assetoshis := value }
  let msig := searchMultisigAddrs s coinaddr
  let xp :=
    if xp.isinternal ≠ 0 then xp
    else
      match msig with
      | some msig =>
        { xp with nxtXfermask := 1, msig := some msig, nxt64bits := calcNxt64bits msig.nxtAddr }
      | none => { xp with nxtXfermask := 1 }
  if (xp.isinternal ≠ 0 ∨ msig.isSome) ∧ xp.coinConfirmed = 0 ∧ isconfirmed ≠ 0 then
    let (s, xp) :=
      addConfirmedDeposit c s t r { xp with coinConfirmed := xp.coinConfirmed + isconfirmed } am
    if (s.tp t).nxtXferbits ≠ 0#64 then
      let s :=
        if xp.nxt.pending = 0 then
          depositTransferNXTacct c s (expandNxt64bits xp.nxt64bits) xp.value t vout
        else s
      (s, { xp with nxt := { xp.nxt with confirmed := 1, pending := xp.nxt.pending ||| 1 } })
    else (s, xp)
  else (s, xp)

/-- The output is made when its slot is null; the answer is its address. -/
def updateCoinValue (c : Coin) (isinternal isconfirmed : Nat) (s : Replica) (t : Text) (i : Nat)
    (slot : Option Nat) (value : BitVec 64) (coinaddr script : Text) (am : BitVec 64) : Replica × Nat :=
  let r := slot.getD s.values.next
  let s := if slot.isNone then s.allocVp {} else s
  let s := s.modifyVp r fun vp =>
    { vp with
      value := value
      parent := t
      parentVout := i
      isinternal := vp.isinternal + isinternal
      coinaddr := safecopy coinaddr maxCoinaddrLen
      script := some script }
  let (s, xp) := updateCrosschainInfo c s t r i isconfirmed ((s.vp r).xp.getD {}) value coinaddr am
  let s := s.modifyVp r fun vp =>
    { vp with
      xp := some { xp with isinternal := xp.isinternal + isinternal }
      isconfirmed := vp.isconfirmed + isconfirmed }
  (s.modifyTp t fun tp => { tp with hasinternal := tp.hasinternal + isinternal }, r)

/-! ## The outputs of a transaction -/

/-- The first address. -/
def scriptHasAddress (scriptobj : Json) : Option Json :=
  match getObjectItem scriptobj "addresses".toList with
  | some addresses => addresses.items.head?
  | none => none

def voutValue (satoshis : Text → BitVec 64) (obj : Json) : BitVec 64 :=
  match getObjectItem obj "value".toList with
  | some numjson => satoshis (copyCJSON (some numjson))
  | none => 0#64

/-- The address and the script of a well-formed output. -/
def readVout (i : Nat) (obj : Json) : Option (Text × Text) :=
  let nval := int32 (getCJSONInt obj "n".toList)
  match getObjectItem obj "scriptPubKey".toList with
  | none => none
  | some scriptobj =>
    match scriptHasAddress scriptobj, getObjectItem scriptobj "hex".toList with
    | some addrobj, some hexobj =>
      if nval = i then some (copyCJSON (some addrobj), copyCJSON (some hexobj)) else none
    | _, _ => none

/-- `realloc` and the clearing of the slots from `oldnum` on. -/
def reallocSlots (slots : Option (List (Option Nat))) (oldnum num : Nat) : Option (List (Option Nat)) :=
  if num = 0 ∧ slots.isSome then none
  else some (((slots.getD []).take oldnum ++ List.replicate (num - oldnum) none).take num)

/-- The loop of `process_vouts` from output `i` on. -/
def voutsLoop (satoshis : Text → BitVec 64) (c : Coin) (t : Text) (isconfirmed : Nat)
    (am : Nat → BitVec 64) : List Json → Nat → Nat → Replica → Replica
  | [], _, _, s => s
  | obj :: objs, i, isinternal, s =>
    match readVout i obj with
    | some (coinaddr, script) =>
      let isinternal := if i = 0 ∧ c.internalmarker = coinaddr then 1 else isinternal
      let (s, r) := updateCoinValue c (if 1 < i then isinternal else 0) isconfirmed s t i
        ((s.tp t).slot i) (voutValue satoshis obj) coinaddr script (am i)
      let s := s.modifyTp t fun tp => { tp with vouts := tp.vouts.map fun slots => slots.set i (some r) }
      voutsLoop satoshis c t isconfirmed am objs (i + 1) isinternal s
    | none => voutsLoop satoshis c t isconfirmed am objs (i + 1) isinternal s

/-- The sum of the unspent outputs is left out, since its only caller drops it. -/
def processVouts (satoshis : Text → BitVec 64) (c : Coin) (s : Replica) (t : Text) (isconfirmed : Nat)
    (vouts : Option Json) (am : Nat → BitVec 64) : Replica :=
  match vouts with
  | none => s
  | some vouts =>
    let s := s.modifyTp t fun tp =>
      { tp with
        numvouts := vouts.items.length
        vouts := reallocSlots tp.vouts tp.numvouts vouts.items.length }
    voutsLoop satoshis c t isconfirmed am vouts.items 0 0 s

/-! ## The inputs of a transaction -/

/-- Input `i` of `t` spends the output at `r`. -/
def markSpent (s : Replica) (t : Text) (i r isconfirmed : Nat) : Replica :=
  let s := s.modifyTp t fun tp => { tp with vins := tp.vins.map fun slots => slots.set i (some r) }
  s.modifyVp r fun vp =>
    if isconfirmed ≠ 0 then { vp with spent := some t, spentVin := i }
    else { vp with pendingspend := some t, pendingSpendvin := i }

/-- Input from the output at `r`: a multisig address makes the transaction internal. -/
def flagInternal (s : Replica) (t : Text) (r : Nat) : Replica :=
  if (searchMultisigAddrs s (s.vp r).coinaddr).isSome ∧ (s.tp t).hasinternal = 0 then
    s.modifyTp t fun tp => { tp with hasinternal := 1 }
  else s

/-- An input that names an output of the transaction `txid`. -/
def processVin (s : Replica) (t : Text) (isconfirmed i : Nat) (txid : Text) (vout : Int) :
    Option Replica :=
  match s.coinTxids txid with
  | none => some s
  | some vintp =>
    if vintp.vouts.isNone then some s
    else if vout < 0 then none
    else
      -- the slot is read, and its output's address too, before `vout` is compared with `numvouts`
      match vintp.slot vout.toNat with
      | none => none
      | some r =>
        let s := flagInternal s t r
        if vout < vintp.numvouts ∧ ((s.vp r).parentVout : Int) = vout ∧ (s.vp r).parent = txid then
          some (markSpent s t i r isconfirmed)
        else some s

/-- The output that stands for the input of a coinbase transaction. -/
def addCoinbase (s : Replica) (t : Text) (coinbase : Text) : Replica :=
  let r := s.values.next
  let s := s.allocVp { parent := t, iscoinbase := 1, script := some coinbase }
  s.modifyTp t fun tp => { tp with vins := tp.vins.map fun slots => slots.set 0 (some r) }

/-- The text of a coinbase input, if it is one. -/
def readCoinbase (obj : Json) : Option Text :=
  let coinbase := copyCJSON (getObjectItem obj "coinbase".toList)
  if 1 < coinbase.length then some coinbase else none

/-- The transaction and the output that an input names. -/
def readVin (obj : Json) : Option (Text × Int) :=
  match getObjectItem obj "txid".toList, getObjectItem obj "vout".toList with
  | some txidobj, some _ => some (copyCJSON (some txidobj), int32 (getCJSONInt obj "vout".toList))
  | _, _ => none

/-- The loop of `process_vins` from input `i` on. -/
def vinsLoop (t : Text) (isconfirmed : Nat) : List Json → Nat → Replica → Option Replica
  | [], _, s => some s
  | obj :: objs, i, s =>
    match readVin obj with
    | some (txid, vout) => (processVin s t isconfirmed i txid vout).bind (vinsLoop t isconfirmed objs (i + 1))
    | none => vinsLoop t isconfirmed objs (i + 1) s

def processVins (s : Replica) (t : Text) (isconfirmed : Nat) (vins : Option Json) : Option Replica :=
  match vins with
  | none => some s
  | some vins =>
    let s := s.modifyTp t fun tp =>
      { tp with
        numvins := vins.items.length
        vins := reallocSlots tp.vins tp.numvins vins.items.length }
    match vins.items with
    | [obj] =>
      match readCoinbase obj with
      | some coinbase => some (addCoinbase s t coinbase)
      | none => vinsLoop t isconfirmed [obj] 0 s
    | objs => vinsLoop t isconfirmed objs 0 s

section
variable {s s' : Replica} {t txid : Text} {isconfirmed i : Nat} {vout : Int}

theorem flagInternal_values (r : Nat) : (flagInternal s t r).values = s.values := by
  unfold flagInternal
  split
  · rfl
  · rfl

theorem vp_flagInternal (r q : Nat) : (flagInternal s t r).vp q = s.vp q := by
  unfold Replica.vp
  rw [flagInternal_values]

/-- What an input does: nothing where the transaction it names has no outputs yet, else it flags the transaction and
marks the output as spent, if that stands where the input says. -/
theorem processVin_eq (h : processVin s t isconfirmed i txid vout = some s') :
    (s' = s ∧ ∀ j, (s.tp txid).slot j = none) ∨
      ∃ v r : Nat, vout = v ∧ (s.tp txid).slot v = some r ∧
        s' = if v < (s.tp txid).numvouts ∧ (s.vp r).parentVout = v ∧ (s.vp r).parent = txid then
          markSpent (flagInternal s t r) t i r isconfirmed else flagInternal s t r := by
  unfold processVin at h
  cases hkey : s.coinTxids txid with
  | none =>
    rw [hkey] at h
    refine .inl ⟨(Option.some.inj h).symm, fun j => ?_⟩
    rw [Replica.tp, hkey]
    rfl
  | some vintp =>
    have htp : s.tp txid = vintp := by rw [Replica.tp, hkey, Option.getD_some]
    simp only [hkey] at h
    rw [htp]
    by_cases hnull : vintp.vouts.isNone
    · rw [if_pos hnull] at h
      refine .inl ⟨(Option.some.inj h).symm, fun j => ?_⟩
      rw [CoinTxid.slot, Option.isNone_iff_eq_none.mp hnull]
      rfl
    · rw [if_neg hnull] at h
      by_cases hneg : vout < 0
      · rw [if_pos hneg] at h
        cases h
      · rw [if_neg hneg] at h
        obtain ⟨v, rfl⟩ := Int.eq_ofNat_of_zero_le (not_lt.mp hneg)
        rw [Int.toNat_natCast] at h
        cases hslot : vintp.slot v with
        | none =>
          rw [hslot] at h
          cases h
        | some r =>
          simp only [hslot, vp_flagInternal, Nat.cast_lt, Nat.cast_inj, ← apply_ite some] at h
          exact .inr ⟨v, r, rfl, hslot, (Option.some.inj h).symm⟩

/-- Nothing, or the transaction is flagged, and an output may be marked as spent. -/
theorem processVin_cases (h : processVin s t isconfirmed i txid vout = some s') :
    s' = s ∨ ∃ r, s' = flagInternal s t r ∨ s' = markSpent (flagInternal s t r) t i r isconfirmed := by
  obtain ⟨hsame, -⟩ | ⟨v, r, -, -, hs'⟩ := processVin_eq h
  · exact .inl hsame
  · refine .inr ⟨r, ?_⟩
    split at hs'
    · exact .inr hs'
    · exact .inl hs'

theorem vinsLoop_rule {rel : Replica → Replica → Prop} (hrefl : ∀ s, rel s s)
    (htrans : ∀ {s s' s''}, rel s s' → rel s' s'' → rel s s'')
    (hvin : ∀ {i txid vout s s'}, processVin s t isconfirmed i txid vout = some s' → rel s s') {objs : List Json}
    (h : vinsLoop t isconfirmed objs i s = some s') : rel s s' := by
  induction objs generalizing i s with
  | nil => exact Option.some.inj h ▸ hrefl s
  | cons obj objs ih =>
    simp only [vinsLoop] at h
    split at h
    · obtain ⟨mid, hmid, hrest⟩ := Option.bind_eq_some_iff.mp h
      exact htrans (hvin hmid) (ih hrest)
    · exact ih h

end

/-! ## A transaction -/

/-- Where and how a transaction is met: its block, the mode of the loop, `gp->blockheight` and the
answers to the messages that are sent. -/
structure Sighting where
  blockheight : Int
  rtmode : Bool
  height : Int
  am : Nat → BitVec 64

def Sighting.isconfirmed (k : Sighting) (c : Coin) : Nat :=
  if k.rtmode then (if k.blockheight ≤ k.height - c.minConfirms then 1 else 0) else 1

/-- `decoded` is the answer of `decoderawtransaction`, `none` when some call failed. -/
def updateCoinValues (satoshis : Text → BitVec 64) (c : Coin) (s : Replica) (t : Text) (k : Sighting)
    (decoded : Option Json) : Option Replica :=
  let s := s.modifyTp t fun tp => { tp with numvouts := 0, numvins := 0, height := int32 k.blockheight }
  match decoded with
  | none => some s
  | some json =>
    let s := processVouts satoshis c s t (k.isconfirmed c) (getObjectItem json "vout".toList) k.am
    processVins s t (k.isconfirmed c) (getObjectItem json "vin".toList)

/-- A transaction of a block. -/
def scan (satoshis : Text → BitVec 64) (c : Coin) (s : Replica) (txid : Text) (k : Sighting)
    (decoded : Option Json) : Option Replica :=
  if txid = [] then some s
  else updateCoinValues satoshis c (s.addTp txid) (Hashtable.storeKey maxCointxidLen txid) k decoded

end NXTServices.Gateway
