import NXTServices.Gateway.Charges

/-!
# Deposit messages that wait: `retrydepositconfirmed` of `multigateway.h`

* `Confirmation` : the fields of a `DEPOSIT_CONFIRMED` message;
* `Deferred` : the output has a transfer, but not where `set_pending_assetxfer` looks for it;
* `decodeDepositconfirmed_code` : the code of the decoder asks for a retry exactly then;
* `retrydepositconfirmed` : the action of the retry queue;
* `keptAsAsked_iff` : the queue keeps a message exactly as the decoder asks, or not;
* `decodeDepositconfirmedJson_early` : a message that comes before its deposit is never kept.
-/

namespace NXTServices.Gateway
open Json hiding true false
open Queue

/-! ## The code of the decoder -/

/-- What `decode_depositconfirmed_json` reads of a message. -/
structure Confirmation where
  coin : Text
  cointxid : Text
  coinaddr : Text
  nxtAddr : Text
  value : BitVec 64
  assetoshis : BitVec 64
  vout : Int

def readConfirmation (argjson : Json) : Confirmation where
  coin := copyCJSON (getObjectItem argjson "coin".toList)
  cointxid := copyCJSON (getObjectItem argjson "cointxid".toList)
  coinaddr := copyCJSON (getObjectItem argjson "coinaddr".toList)
  nxtAddr := copyCJSON (getObjectItem argjson "NXTaddr".toList)
  value := getSatoshiObj argjson "value".toList
  assetoshis := getSatoshiObj argjson "assetoshis".toList
  vout := int32 (getCJSONInt argjson "vout".toList)

/-- The key of the transaction that the message names. -/
def Confirmation.key (m : Confirmation) : Text := Hashtable.storeKey maxCointxidLen m.cointxid

/-- The fields that are checked are there. -/
structure Confirmation.Complete (m : Confirmation) : Prop where
  coin : m.coin ≠ []
  cointxid : m.cointxid ≠ []
  coinaddr : m.coinaddr ≠ []
  nxtAddr : m.nxtAddr ≠ []
  value : 0 < m.value.toInt
  assetoshis : 0 < m.assetoshis.toInt

/-- The output has an asset transfer, but `set_pending_assetxfer` does not find its deposit: `vout` is
not below `numvouts`, or the transaction is stored under another key than its id. -/
structure Deferred (s : Replica) (m : Confirmation) : Prop where
  complete : m.Complete
  transferred : ∃ txid, matchingTransfer s m.key m.vout = some txid ∧ txid ≠ 0#64
  lost : depositOf s m.cointxid m.vout = none

section Decode
variable {c : Coin} {s s' : Replica}

/-- Every output and its deposit is where it was. -/
structure SameOutputs (s s' : Replica) : Prop where
  vouts : ∀ t, (s'.tp t).vouts = (s.tp t).vouts
  numvouts : ∀ t, (s'.tp t).numvouts = (s.tp t).numvouts
  values : s'.values = s.values

theorem SameOutputs.depositOf (h : SameOutputs s s') (t : Text) (vout : Int) :
    Gateway.depositOf s' t vout = Gateway.depositOf s t vout := by
  unfold Gateway.depositOf
  simp only [h.numvouts, CoinTxid.slot, h.vouts, Replica.vp, h.values]

theorem SameOutputs.matchingTransfer (h : SameOutputs s s') (t : Text) (vout : Int) :
    Gateway.matchingTransfer s' t vout = Gateway.matchingTransfer s t vout := by
  unfold Gateway.matchingTransfer
  simp only [h.vouts, Replica.vp, h.values]

theorem SameOutputs.addTp (x : Text) : SameOutputs s (s.addTp x) := ⟨by simp, by simp, rfl⟩

theorem SameOutputs.modifyTp (h : SameOutputs s s') (t : Text) {f : CoinTxid → CoinTxid}
    (hvouts : ∀ tp, (f tp).vouts = tp.vouts) (hnum : ∀ tp, (f tp).numvouts = tp.numvouts) :
    SameOutputs s (s'.modifyTp t f) where
  vouts t' := (tp_modifyTp_proj CoinTxid.vouts hvouts t').trans (h.vouts t')
  numvouts t' := (tp_modifyTp_proj CoinTxid.numvouts hnum t').trans (h.numvouts t')
  values := h.values

/-- The first half of the decoder. -/
theorem confirmAM_outputs (x t : Text) (amtxid : Option Text) (nxtAddr : Text) (value : BitVec 64) :
    SameOutputs s (confirmAM c (s.addTp x) t amtxid nxtAddr value) := by
  unfold confirmAM
  split
  · exact .addTp x
  · next amtxid =>
    have hmark : SameOutputs s
        ((s.addTp x).modifyTp t fun tp => { tp with confirmedAMbits := calcNxt64bits amtxid }) :=
      (SameOutputs.addTp x).modifyTp t (fun _ => rfl) fun _ => rfl
    dsimp only
    split
    · split
      · exact hmark
      · exact ⟨hmark.vouts, hmark.numvouts, hmark.values⟩
    · exact .addTp x

theorem setPendingAssetxfer_code (t : Text) (vout : Int) (nxt64bits nxtTxid assetoshis : BitVec 64) :
    (setPendingAssetxfer c s t vout nxt64bits nxtTxid assetoshis).1 ≠ 0 ↔ depositOf s t vout = none := by
  unfold setPendingAssetxfer
  cases depositOf s t vout with
  | none => simp
  | some rxp =>
    dsimp only
    split <;> simp

/-- **The code of the decoder**, read off the state before it. -/
theorem decodeDepositconfirmed_code {argjson : Json} {amtxid : Option Text} {code : Int}
    (h : decodeDepositconfirmed c s argjson amtxid = some (code, s')) :
    code = c.coinid ∧ Deferred s (readConfirmation argjson) ∨
      code = -1 ∧ ¬ Deferred s (readConfirmation argjson) := by
  unfold decodeDepositconfirmed at h
  obtain ⟨nxtTxid, hmatch, heq⟩ := Option.map_eq_some_iff.mp h
  dsimp only at hmatch heq
  have hsame := confirmAM_outputs (c := c) (s := s) (copyCJSON (getObjectItem argjson "cointxid".toList))
    (Hashtable.storeKey maxCointxidLen (copyCJSON (getObjectItem argjson "cointxid".toList))) amtxid
    (copyCJSON (getObjectItem argjson "NXTaddr".toList)) (getSatoshiObj argjson "value".toList)
  rw [hsame.matchingTransfer] at hmatch
  split at heq
  · next hfields =>
    obtain ⟨hcoin, htxid, hne, haddr, hnxt, hvalue, hasset⟩ := hfields
    obtain ⟨rfl, -⟩ := Prod.mk.inj heq
    split
    · next hcode =>
      rw [setPendingAssetxfer_code, hsame.depositOf] at hcode
      exact .inl ⟨rfl, ⟨hcoin, htxid, haddr, hnxt, hvalue, hasset⟩, ⟨nxtTxid, hmatch, hne⟩, hcode⟩
    · next hcode =>
      rw [setPendingAssetxfer_code, hsame.depositOf] at hcode
      exact .inr ⟨rfl, fun hdef => hcode hdef.lost⟩
  · next hfields =>
    obtain ⟨rfl, -⟩ := Prod.mk.inj heq
    refine .inr ⟨rfl, fun ⟨hcomplete, ⟨txid, htxid, hne⟩, _⟩ => hfields ?_⟩
    obtain rfl : nxtTxid = txid := Option.some.inj (hmatch.symm.trans htxid)
    exact ⟨hcomplete.coin, hcomplete.cointxid, hne, hcomplete.coinaddr, hcomplete.nxtAddr, hcomplete.value,
      hcomplete.assetoshis⟩

end Decode

/-! ## The retry queue -/

section Queue
variable {gp : GatewayInfo} {lps lps' : Replicas} {argjson : Json} {amtxid : Option Text} {code : Int}

/-- The message names a coin that the node keeps, and its output is `Deferred`. -/
structure Retriable (gp : GatewayInfo) (lps : Replicas) (argjson : Json) : Prop where
  read : argjson ≠ .null
  kept : gp.keeps (messageCoinid argjson).toNat
  deferred : Deferred (lps (messageCoinid argjson).toNat) (readConfirmation argjson)

theorem decodeDepositconfirmedJson_code (h : decodeDepositconfirmedJson gp lps argjson amtxid = some (code, lps')) :
    (code = messageCoinid argjson ∧ 0 ≤ code) ∧ Retriable gp lps argjson ∨ code = -1 ∧ ¬ Retriable gp lps argjson := by
  unfold decodeDepositconfirmedJson at h
  split at h
  · cases h
    exact .inr ⟨rfl, fun hr => hr.read rfl⟩
  · next hnull =>
    dsimp only at h
    split at h
    · next hrange =>
      split at h
      · next hkept =>
        obtain ⟨⟨code', s'⟩, hdec, heq⟩ := Option.map_eq_some_iff.mp h
        cases heq
        rcases decodeDepositconfirmed_code hdec with ⟨rfl, hdef⟩ | ⟨rfl, hdef⟩
        · have hcoin : (((gp.coin (messageCoinid argjson).toNat).coinid : Nat) : Int) = messageCoinid argjson :=
            Int.toNat_of_nonneg hrange.1
          exact .inl ⟨⟨hcoin, Int.natCast_nonneg _⟩, hnull, hkept, hdef⟩
        · exact .inr ⟨rfl, fun hr => hdef hr.deferred⟩
      · next hkept =>
        cases h
        exact .inr ⟨rfl, fun hr => hkept hr.kept⟩
    · cases h

theorem messageCoinid_nonneg (h : (decodeDepositconfirmedJson gp lps argjson amtxid).isSome) :
    0 ≤ messageCoinid argjson := by
  unfold decodeDepositconfirmedJson at h
  split at h
  · decide
  · dsimp only at h
    split at h
    · next hrange => exact hrange.1
    · cases h

/-- `retrydepositconfirmed`: `0` keeps the message in the queue, `1` has freed it. -/
def retrydepositconfirmed (gp : GatewayInfo) (lps : Replicas) (argjson : Json) : Option (Int × Replicas) :=
  (decodeDepositconfirmedJson gp lps argjson none).map fun (code, lps) => (if code ≠ 0 then 0 else 1, lps)

theorem retryLoop_succ (coinid : Nat) (one : Bool) (n : Nat) (lps mid : Replicas) (argjson : Json)
    (hdeq : dequeueRetry lps coinid one = (some argjson, mid)) :
    retryLoop gp coinid one (n + 1) lps = (retrydepositconfirmed gp mid argjson).bind fun (retval, lps) =>
      retryLoop gp coinid one n (if retval = 0 then enqueueRetry lps coinid (!one) argjson else lps) := by
  unfold retrydepositconfirmed
  simp only [retryLoop, hdeq]
  cases decodeDepositconfirmedJson gp mid argjson none with
  | none => rfl
  | some r =>
    obtain ⟨code, lps'⟩ := r
    by_cases hcode : code = 0 <;> simp [hcode]

/-- The queue keeps the message when the decoder answers with a coin, and frees it otherwise. -/
def KeptAsAsked (gp : GatewayInfo) (lps : Replicas) (argjson : Json) : Prop :=
  ∀ code lps', decodeDepositconfirmedJson gp lps argjson none = some (code, lps') →
    (retrydepositconfirmed gp lps argjson).map Prod.fst = some (if 0 ≤ code then 0 else 1)

/-- **The retry queue and the decoder agree on the messages that wait for a coin other than `0`**, and on
no others: a message that is done with, or of no use, is kept as well. -/
theorem keptAsAsked_iff (hread : (decodeDepositconfirmedJson gp lps argjson none).isSome) :
    KeptAsAsked gp lps argjson ↔ Retriable gp lps argjson ∧ messageCoinid argjson ≠ 0 := by
  obtain ⟨⟨code, lps'⟩, hdec⟩ := Option.isSome_iff_exists.mp hread
  have hkept : KeptAsAsked gp lps argjson ↔ ((if code ≠ 0 then 0 else 1) = if 0 ≤ code then (0 : Int) else 1) := by
    simp [KeptAsAsked, retrydepositconfirmed, hdec]
  rw [hkept]
  rcases decodeDepositconfirmedJson_code hdec with ⟨⟨rfl, hpos⟩, hretry⟩ | ⟨rfl, hretry⟩
  · simp [hpos, hretry]
  · simp [hretry]

end Queue

/-- The message for output `0` of the transaction `t1`. -/
def confirmJson : Json :=
  .object [("NXTaddr".toList, .string "3".toList), ("coin".toList, .string "DOGE".toList),
    ("coinid".toList, .number "4".toList), ("cointxid".toList, .string "t1".toList),
    ("coinaddr".toList, .string "A".toList), ("vout".toList, .number "0".toList),
    ("value".toList, .number "500000000".toList), ("assetoshis".toList, .number "500000000".toList)]

/-- The daemon does not answer when the transaction is scanned again, and the message comes just then. -/
def waitingSteps : List Step :=
  [bindStep, scanStep, .assetevent (gatewayTransfer "0".toList) true, .scan 4 "t1".toList historical none,
    .depositConfirmed nxtIssuerAcct "8".toList confirmJson]

def afterWaiting : Replicas := (Run.run (step id wholeCoins (smallGateway 0)) init waitingSteps).getD init

theorem run_afterWaiting : Run.run (step id wholeCoins (smallGateway 0)) init waitingSteps = some afterWaiting :=
  Run.run_getD (by decide +kernel) init

/-- The message waits until the next scan. -/
theorem keptAsAsked_afterWaiting :
    KeptAsAsked (smallGateway 0) afterWaiting confirmJson ↔
      Retriable (smallGateway 0) afterWaiting confirmJson ∧ messageCoinid confirmJson ≠ 0 :=
  keptAsAsked_iff (by decide +kernel)

/-- The next scan settles the deposit, and the message stays. -/
theorem not_forall_keptAsAsked :
    ¬ ∀ (render : Text → Text) (satoshis : Text → BitVec 64) (gp : GatewayInfo) (lps : Replicas),
      Reachable render satoshis gp lps → ∀ k argjson mid, dequeueRetry lps k Bool.false = (some argjson, mid) →
      KeptAsAsked gp mid argjson := by
  intro h
  have hcodes : ((step id wholeCoins (smallGateway 0) afterWaiting scanStep).bind fun lps =>
      (dequeueRetry lps 4 Bool.false).1.bind fun argjson =>
        (decodeDepositconfirmedJson (smallGateway 0) (dequeueRetry lps 4 Bool.false).2 argjson none).map Prod.fst) =
      some (-1) := by decide +kernel
  obtain ⟨lps, hlps, hrest⟩ := Option.bind_eq_some_iff.mp hcodes
  obtain ⟨argjson, hdeq, hdec⟩ := Option.bind_eq_some_iff.mp hrest
  obtain ⟨⟨code, lps'⟩, hdec, hcode⟩ := Option.map_eq_some_iff.mp hdec
  obtain rfl : code = -1 := hcode
  have hreach : Reachable id wholeCoins (smallGateway 0) lps := by
    refine ⟨waitingSteps ++ [scanStep], ?_⟩
    rw [Run.run_append, run_afterWaiting, Option.bind_some, Run.run_cons, hlps]
    rfl
  have hkept := h id wholeCoins (smallGateway 0) lps hreach 4 argjson _ (Prod.ext hdeq rfl) (-1) lps' hdec
  simp [retrydepositconfirmed, hdec] at hkept

/-! ## Messages that come before their deposit -/

section Early
variable {gp : GatewayInfo} {lps : Replicas} {argjson : Json} {amtxid : Option Text}

/-- The output that the message names has no deposit. -/
def NoDeposit (s : Replica) (m : Confirmation) : Prop :=
  ∀ r, (s.tp m.key).slot m.vout.toNat = some r → (s.vp r).xp = none

/-- A message as a gateway sends it, of a coin that the node keeps. -/
structure WellFormed (gp : GatewayInfo) (argjson : Json) : Prop where
  complete : (readConfirmation argjson).Complete
  short : (readConfirmation argjson).cointxid.length < maxCointxidLen
  vout : 0 ≤ (readConfirmation argjson).vout
  coinid : 0 ≤ messageCoinid argjson
  kept : gp.keeps (messageCoinid argjson).toNat
  name : (readConfirmation argjson).coin = coinidStr (messageCoinid argjson)
  legal : (gp.coin (messageCoinid argjson).toNat).legal

theorem NoDeposit.matchingTransfer {s : Replica} {m : Confirmation} (h : NoDeposit s m) {txid : BitVec 64}
    (hmatch : Gateway.matchingTransfer s m.key m.vout = some txid) : txid = 0#64 := by
  unfold Gateway.matchingTransfer at hmatch
  split at hmatch
  · simpa using hmatch.symm
  · next slots hslots =>
    split at hmatch
    · cases hmatch
    · split at hmatch
      · cases hmatch
      · simpa using hmatch.symm
      · next r hr =>
        have hxp := h r (by simp [CoinTxid.slot, hslots, hr])
        simpa [hxp] using hmatch.symm

/-- **A message that comes before its deposit is never kept**: without a deposit there is no transfer to
be found, so that the branch that asks for a retry is out of reach. -/
theorem decodeDepositconfirmedJson_early
    (h : NoDeposit (lps (messageCoinid argjson).toNat) (readConfirmation argjson)) :
    ¬ ∃ lps', decodeDepositconfirmedJson gp lps argjson amtxid = some (messageCoinid argjson, lps') := by
  rintro ⟨lps', hdec⟩
  rcases decodeDepositconfirmedJson_code hdec with ⟨-, hretry⟩ | ⟨hcode, -⟩
  · obtain ⟨txid, hmatch, hne⟩ := hretry.deferred.transferred
    exact hne (h.matchingTransfer hmatch)
  · have hpos := messageCoinid_nonneg (hdec ▸ rfl : (decodeDepositconfirmedJson gp lps argjson amtxid).isSome)
    omega

theorem confirmJson_early :
    ¬ ∃ lps', decodeDepositconfirmedJson (smallGateway 0) init confirmJson (some "8".toList) =
      some (messageCoinid confirmJson, lps') :=
  decodeDepositconfirmedJson_early fun r hslot => by cases hslot

/-- A message that a gateway sends about an output that this node has yet to see. -/
theorem not_forall_kept_early :
    ¬ ∀ (render : Text → Text) (satoshis : Text → BitVec 64) (gp : GatewayInfo) (lps : Replicas),
      Reachable render satoshis gp lps → ∀ argjson amtxid, WellFormed gp argjson →
      NoDeposit (lps (messageCoinid argjson).toNat) (readConfirmation argjson) →
      ∃ lps', decodeDepositconfirmedJson gp lps argjson (some amtxid) = some (messageCoinid argjson, lps') := by
  intro h
  have hform : WellFormed (smallGateway 0) confirmJson :=
    ⟨⟨by decide, by decide, by decide, by decide, by decide, by decide⟩, by decide, by decide, by decide, by decide,
      by decide, by decide⟩
  obtain ⟨lps', hdec⟩ := h id wholeCoins (smallGateway 0) init ⟨[], rfl⟩ confirmJson "8".toList hform
    fun r hslot => by cases hslot
  have hcode : (decodeDepositconfirmedJson (smallGateway 0) init confirmJson (some "8".toList)).map Prod.fst =
      some (-1) := by decide +kernel
  rw [hdec, Option.map_some] at hcode
  have hcoinid : messageCoinid confirmJson = -1 := Option.some.inj hcode
  exact absurd hcoinid (by decide)

end Early
end NXTServices.Gateway
