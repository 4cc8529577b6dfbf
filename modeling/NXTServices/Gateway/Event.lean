import NXTServices.Gateway.Scan
import NXTServices.Lib.Run

/-!
# Events, messages and transfers: `multigateway.h`, `multideposit.h` and `multisig.h`

* `crosschainEvent`, `redeemEvent`, `assetcommand` : an asset transfer and its comment;
* `setPendingAssetxfer`, `decodeDepositconfirmed` : a `DEPOSIT_CONFIRMED` message;
* `authorizeAssetTransfer`, `transferAssets` : the deposits are paid out;
* `decodeMsigjson`, `updateAcctBinding` : a `BIND_DEPOSIT_ADDRESS` message;
* `GatewayInfo`, `Step`, `step` : a node, from one event to the next.

`render` prints the numbers of a comment (see `cJSONParse`); the answers of the daemon and of the NXT
server come with the step that asks for them.
-/

namespace NXTServices.Gateway
open Json Queue

def Replica.modifyXp (s : Replica) (r : Nat) (f : CrosschainInfo → CrosschainInfo) : Replica :=
  s.modifyVp r fun vp => { vp with xp := vp.xp.map f }

/-- The output `vout` of `t`, with its deposit. -/
def depositOf (s : Replica) (t : Text) (vout : Int) : Option (Nat × CrosschainInfo) :=
  if 0 ≤ vout ∧ vout < (s.tp t).numvouts then
    match (s.tp t).slot vout.toNat with
    | some r => (s.vp r).xp.map fun xp => (r, xp)
    | none => none
  else none

/-! ## Asset transfers -/

/-- A transfer of an asset, as `multigateway_handler` passes it on: `assetoshis` is positive, and the
NXT transaction has an id. -/
structure AssetEvent where
  sender : Text
  receiver : Text
  txid : Text
  assetid : Text
  assetoshis : BitVec 64
  comment : Option Text
  positive : 0 < assetoshis.toInt
  txid_ne : calcNxt64bits txid ≠ 0#64

theorem toInt_one_pos : 0 < (1#64).toInt := by decide

theorem toInt_five_pos : 0 < (5#64).toInt := by decide

theorem calcNxt64bits_nine_ne : calcNxt64bits "9".toList ≠ 0#64 := by decide

def unbackslash : Text → Text
  | '\\' :: '"' :: cs => '"' :: unbackslash cs
  | c :: cs => c :: unbackslash cs
  | [] => []

def replaceBackslashquotes (str : Text) : Text :=
  unbackslash <|
    match str with
    | '"' :: cs => if str.getLast? = some '"' then cs.dropLast else str
    | _ => str

/-- The text that is parsed, and kept in a redemption. -/
def AssetEvent.text (ev : AssetEvent) : Text :=
  match ev.comment with
  | some comment => replaceBackslashquotes comment
  | none => []

/-- The coin, the transaction and the output that a comment with a field `crosschain` names. -/
def AssetEvent.crosschain (render : Text → Text) (ev : AssetEvent) : Option (Text × Text × Int) :=
  match cJSONParse render ev.text with
  | none => none
  | some json =>
    (getObjectItem json "crosschain".toList).map fun obj =>
      (copyCJSON (some obj), copyCJSON (getObjectItem json "cointxid".toList), int32 (getCJSONInt json "vout".toList))

/-- The branch of a comment with a field `crosschain`, which is `obj`. A comment whose texts overrun `coinname` or
`cointxid` is given the effect that it has with larger buffers. -/
def crosschainEvent (c : Coin) (s : Replica) (ev : AssetEvent) (json obj : Json) : Replica :=
  if convCoinstr (copyCJSON (some obj)) = some c.coinid then
    let vout := int32 (getCJSONInt json "vout".toList)
    let cointxid := copyCJSON (getObjectItem json "cointxid".toList)
    if cointxid = [] then s
    else
      let t := Hashtable.storeKey maxCointxidLen cointxid
      let s := (s.addTp cointxid).modifyTp t fun tp => { tp with nxtXferbits := calcNxt64bits ev.txid }
      match depositOf s t vout with
      | some (r, xp) =>
        if xp.nxt.assetTxid = 0#64 then
          s.modifyXp r fun xp => { xp with nxt := { xp.nxt with assetTxid := calcNxt64bits ev.txid } }
        else s
      | none =>
        if c.daemon then s else depositTransferNXTacct c s ev.sender ev.assetoshis t vout
  else s

/-- Where a redemption pays to, and the comment that is kept: the account's own address stands in for
a missing one. -/
def redeemTarget (c : Coin) (s : Replica) (ev : AssetEvent) (json : Json) : Text × Text :=
  let withdrawaddr := copyCJSON (getObjectItem json "coinaddr".toList)
  match getCoinAcct c s ev.sender with
  | some acct => if withdrawaddr = [] then (acct.withdrawaddr, []) else (withdrawaddr, ev.text)
  | none => (withdrawaddr, ev.text)

/-- `authenticatorflag`. -/
def redeemFlag (c : Coin) (s : Replica) (ev : AssetEvent) (withdrawaddr : Text) : Nat :=
  match getCoinAcct c s ev.sender with
  | some acct => if withdrawaddr = acct.withdrawaddr then 0 else 1
  | none => 1

/-- A new record is filled and waits for its confirmations. -/
def enqueueRedeem (s : Replica) (key : Text) (wp : WithdrawInfo) : Replica :=
  ({ s with
      redeemtxids := s.redeemtxids.modify key fun _ => wp
      withdrawreqs := { s.withdrawreqs with zero := queueEnqueue s.withdrawreqs.zero key } }).log
    (.withdrawreq wp)

/-- The branch of a comment without the field. `validaddr` is the answer of `validate_coinaddr`. A comment whose texts
overrun `coinname` or `withdrawaddr` is given the effect that it has with larger buffers. -/
def redeemEvent (c : Coin) (s : Replica) (ev : AssetEvent) (json : Json) (validaddr : Bool) : Replica :=
  if ev.sender = nxtIssuerAcct ∨ ev.sender = genesisAcct ∨ isGatewayAddr ev.sender then s
  else
    match getObjectItem json "redeem".toList with
    | none => s
    | some obj =>
      if convCoinstr (copyCJSON (some obj)) = some c.coinid then
        let (withdrawaddr, comment) := redeemTarget c s ev json
        if withdrawaddr = [] ∨ (c.daemon ∧ ¬ validaddr) then s
        else
          let found := s.redeemtxids.add maxNxtaddrLen ev.txid {}
          if found.created then
            enqueueRedeem { s with redeemtxids := found.table } found.key
              { coinid := c.coinid
                amount := ev.assetoshis
                nxtAddr := safecopy ev.sender maxNxtaddrLen
                withdrawaddr := safecopy withdrawaddr maxCoinaddrLen
                comment := safecopy comment 1024
                twofactor := redeemFlag c s ev withdrawaddr }
          else s
      else s

/-- `multigateway_assetevent` once the coin of the asset is known. -/
def assetcommand (render : Text → Text) (c : Coin) (s : Replica) (ev : AssetEvent)
    (validaddr : Bool) : Replica :=
  match cJSONParse render ev.text with
  | none => s
  | some json =>
    match getObjectItem json "crosschain".toList with
    | some obj => crosschainEvent c s ev json obj
    | none => redeemEvent c s ev json validaddr

/-! ## `DEPOSIT_CONFIRMED` -/

/-- The deposit `xp` at `r` is known to be transferred, which is charged once. -/
def settleDeposit (c : Coin) (s : Replica) (cointxid : Text) (vout : Int) (r : Nat) (xp : CrosschainInfo)
    (nxt64bits nxtTxid assetoshis : BitVec 64) : Replica :=
  let s := s.modifyTp cointxid fun tp => { tp with nxtXferbits := nxtTxid }
  let s :=
    if xp.nxt.pending = 0 then
      depositTransferNXTacct c s (expandNxt64bits nxt64bits) xp.value cointxid vout
    else s
  s.modifyXp r fun xp =>
    { xp with
      assetoshis := assetoshis
      nxt := { xp.nxt with assetTxid := nxtTxid, confirmed := 1, pending := xp.nxt.pending ||| 1 } }

def setPendingAssetxfer (c : Coin) (s : Replica) (cointxid : Text) (vout : Int)
    (nxt64bits nxtTxid assetoshis : BitVec 64) : Int × Replica :=
  match depositOf s cointxid vout with
  | none => (-1, s)
  | some (r, xp) =>
    if xp.isinternal ≠ 0 ∨ nxtTxid = 0#64 then (0, s)
    else (0, settleDeposit c s cointxid vout r xp nxt64bits nxtTxid assetoshis)

/-- The message of `amtxid` is seen; without a daemon it credits the deposit. -/
def confirmAM (c : Coin) (s : Replica) (t : Text) (amtxid : Option Text) (nxtAddr : Text)
    (value : BitVec 64) : Replica :=
  match amtxid with
  | none => s
  | some amtxid =>
    if (s.tp t).confirmedAMbits = 0#64 then
      let s := s.modifyTp t fun tp => { tp with confirmedAMbits := calcNxt64bits amtxid }
      if c.daemon then s else depositNXTacct c s nxtAddr value
    else s

/-- The asset transfer of the output, `0` when there is none; `none` is a read outside of `vouts`. -/
def matchingTransfer (s : Replica) (t : Text) (vout : Int) : Option (BitVec 64) :=
  match (s.tp t).vouts with
  | none => some 0#64
  | some slots =>
    if vout < 0 then none
    else
      match slots[vout.toNat]? with
      | none => none
      | some none => some 0#64
      | some (some r) => some (((s.vp r).xp.map fun xp => xp.nxt.assetTxid).getD 0#64)

/-- `decode_depositconfirmed_json` on the coin that the message names. -/
def decodeDepositconfirmed (c : Coin) (s : Replica) (argjson : Json) (amtxid : Option Text) :
    Option (Int × Replica) :=
  let cointxid := copyCJSON (getObjectItem argjson "cointxid".toList)
  let nxtAddr := copyCJSON (getObjectItem argjson "NXTaddr".toList)
  let value := getSatoshiObj argjson "value".toList
  let assetoshis := getSatoshiObj argjson "assetoshis".toList
  let vout := int32 (getCJSONInt argjson "vout".toList)
  let t := Hashtable.storeKey maxCointxidLen cointxid
  let s := confirmAM c (s.addTp cointxid) t amtxid nxtAddr value
  (matchingTransfer s t vout).map fun nxtTxid =>
    if copyCJSON (getObjectItem argjson "coin".toList) ≠ [] ∧ cointxid ≠ [] ∧ nxtTxid ≠ 0#64 ∧
        copyCJSON (getObjectItem argjson "coinaddr".toList) ≠ [] ∧ nxtAddr ≠ [] ∧
        0 < value.toInt ∧ 0 < assetoshis.toInt then
      let (code, s) := setPendingAssetxfer c s cointxid vout (calcNxt64bits nxtAddr) nxtTxid assetoshis
      (if code ≠ 0 then c.coinid else -1, s)
    else (-1, s)

/-! ## Paying out -/

/-- The transfer of the deposit at `r` is issued; `txid` is the answer, `0` on failure. -/
def issueTransfer (c : Coin) (s : Replica) (r : Nat) (xp : CrosschainInfo) (txid : BitVec 64) : Replica :=
  let t := (s.vp r).parent
  let s := s.log (.issueTransferAsset t (s.vp r).parentVout (expandNxt64bits xp.nxt64bits)
    (assetidStr c.coinid) xp.assetoshis txid)
  let s := s.modifyTp t fun tp => { tp with nxtXferbits := txid }
  s.modifyXp r fun xp =>
    { xp with
      nxt := { xp.nxt with
        assetTxid := txid
        pending := if txid ≠ 0#64 then xp.nxt.pending ||| 1 else xp.nxt.pending } }

/-- `txid` is the answer of `issue_transferAsset`, `confirms` the one of `get_NXTtxid_confirmations`. -/
def authorizeAssetTransfer (c : Coin) (s : Replica) (r : Nat) (txid : BitVec 64) (confirms : Int) :
    Replica :=
  match (s.vp r).xp with
  | none => s
  | some xp =>
    if xp.isinternal = 0 ∧ xp.coinConfirmed ≠ 0 ∧ xp.nxtXfermask ≠ xp.nxt.confirmed then
      if 0 ≤ c.gatewayid ∧ xp.nxtXfermask &&& 1 ≠ 0 ∧ xp.nxt.pending &&& 1 = 0 then
        if assigned c xp.nxt64bits ∧ assetidStr c.coinid ≠ [] ∧ xp.assetoshis ≠ 0#64 ∧
            0 < balanceVerification c s false (expandNxt64bits xp.nxt64bits) xp.value ∧
            (s.tp (s.vp r).parent).nxtXferbits = 0#64 then
          issueTransfer c s r xp txid
        else s
      else if xp.nxt.pending &&& 1 ≠ 0 ∧ xp.nxt.confirmed &&& 1 = 0 ∧ xp.nxt.assetTxid ≠ 0#64 ∧
          minNxtconfirms ≤ confirms then
        s.modifyXp r fun xp => { xp with nxt := { xp.nxt with confirmed := xp.nxt.confirmed ||| 1 } }
      else s
    else s

/-- The loop of `transfer_assets` from deposit `i` on; the first test of `authorizeAssetTransfer` is
made here too. -/
def transferLoop (c : Coin) (txid : Nat → BitVec 64) (confirms : Nat → Int) :
    List Nat → Nat → Replica → Replica
  | [], _, s => s
  | r :: rs, i, s =>
    transferLoop c txid confirms rs (i + 1) (authorizeAssetTransfer c s r (txid i) (confirms i))

/-- The list is copied before the loop. -/
def transferAssets (c : Coin) (txid : Nat → BitVec 64) (confirms : Nat → Int) (s : Replica) : Replica :=
  transferLoop c txid confirms s.xps 0 s

/-! ## `BIND_DEPOSIT_ADDRESS` -/

def readPubkey (pobj : Json) : PubkeyInfo where
  pubkey := copyCJSON (getObjectItem pobj "pubkey".toList)
  coinaddr := copyCJSON (getObjectItem pobj "address".toList)
  server := copyCJSON (getObjectItem pobj "ipaddr".toList)

def decodeMsigjson (nxtAddr : Text) (obj : Json) : Option MultisigAddr :=
  let coinid := int32 (getCJSONInt obj "coinid".toList)
  match getObjectItem obj "coin".toList with
  | none => none
  | some nameobj =>
    if coinidStr coinid ≠ copyCJSON (some nameobj) then none
    else
      match getObjectItem obj "address".toList, getObjectItem obj "redeemScript".toList,
        getObjectItem obj "pubkey".toList with
      | some addrobj, some redeemobj, some pubkeysobj =>
        if pubkeysobj.items.length = numGateways then
          some
            { nxtAddr := safecopy nxtAddr maxNxtaddrLen
              multisigaddr := copyCJSON (some addrobj)
              redeemScript := copyCJSON (some redeemobj)
              pubkeys := pubkeysobj.items.map readPubkey
              m := numGateways - 1
              n := numGateways
              coinid := coinid }
        else none
      | _, _, _ => none

/-- `msigcmp` answers `0`. -/
def sameMsig (ref msig : MultisigAddr) : Bool :=
  ref.multisigaddr == msig.multisigaddr && ref.nxtAddr == msig.nxtAddr &&
    ref.redeemScript == msig.redeemScript && ref.pubkeys == msig.pubkeys

def addMultisigAddr (s : Replica) (nxtAddr : Text) (msig : MultisigAddr) : Replica :=
  let s := s.modifyAcct nxtAddr fun acct => { acct with msigs := acct.msigs ++ [msig] }
  { s with msigs := s.msigs ++ [msig] }

def updateAcctBinding (c : Coin) (s : Replica) (nxtAddr : Text) (msig : MultisigAddr) : Replica :=
  match getCoinAcct c s nxtAddr with
  | some acct => if acct.msigs.any (sameMsig · msig) then s else addMultisigAddr s nxtAddr msig
  | none => s

/-! ## A node -/

/-- What a node never writes: `replicants` and `daemons` say which coins it keeps. -/
structure GatewayInfo where
  gatewayid : Int
  replicants : Nat → Bool
  daemons : Nat → Bool
  internalmarker : Nat → Text := fun _ => []
  minConfirms : Nat → Int := fun _ => 3

/-- The coins `0` to `63` that the node keeps. -/
def GatewayInfo.keeps (gp : GatewayInfo) (coinid : Nat) : Bool := coinid < 64 && gp.replicants coinid

def GatewayInfo.coin (gp : GatewayInfo) (coinid : Nat) : Coin where
  coinid := coinid
  gatewayid := gp.gatewayid
  daemon := coinid < 64 && gp.daemons coinid
  internalmarker := gp.internalmarker coinid
  minConfirms := gp.minConfirms coinid

/-- The state of a node, by coin. -/
abbrev Replicas := Nat → Replica

/-- An asset of no coin stands at `replicants[-1]`, the unused end of the last name of `gateways`, which
is null. -/
def multigatewayAssetevent (render : Text → Text) (gp : GatewayInfo) (lps : Replicas) (ev : AssetEvent)
    (validaddr : Bool) : Replicas :=
  match convAssetid ev.assetid with
  | none => lps
  | some coinid =>
    if gp.keeps coinid then
      Function.update lps coinid (assetcommand render (gp.coin coinid) (lps coinid) ev validaddr)
    else lps

/-- The id that a message gives for its coin. -/
def messageCoinid (argjson : Json) : Int := int32 (getCJSONInt argjson "coinid".toList)

/-- A coin outside of `replicants` is a stray read. -/
def decodeDepositconfirmedJson (gp : GatewayInfo) (lps : Replicas) (argjson : Json)
    (amtxid : Option Text) : Option (Int × Replicas) :=
  match argjson with
  | .null => some (-1, lps)
  | argjson =>
    let coinid := int32 (getCJSONInt argjson "coinid".toList)
    if 0 ≤ coinid ∧ coinid < 64 then
      if gp.keeps coinid.toNat then
        (decodeDepositconfirmed (gp.coin coinid.toNat) (lps coinid.toNat) argjson amtxid).map
          fun (code, s) => (code, Function.update lps coinid.toNat s)
      else some (-1, lps)
    else none

/-- The message waits in the queue of the coin whose id `decode_depositconfirmed_json` answered. -/
def enqueueRetry (lps : Replicas) (coinid : Nat) (one : Bool) (argjson : Json) : Replicas :=
  let q := (lps coinid).retrydepositconfirmed
  Function.update lps coinid
    { lps coinid with
      retrydepositconfirmed :=
        if one then { q with one := queueEnqueue q.one argjson }
        else { q with zero := queueEnqueue q.zero argjson } }

/-- `queue_dequeue` on one of the two queues. -/
def dequeueRetry (lps : Replicas) (coinid : Nat) (one : Bool) : Option Json × Replicas :=
  let q := (lps coinid).retrydepositconfirmed
  let next := queueDequeue (if one then q.one else q.zero)
  (next.1, Function.update lps coinid
    { lps coinid with
      retrydepositconfirmed := if one then { q with one := next.2 } else { q with zero := next.2 } })

/-- The inner loop of `process_pingpong_queue` with the action `retrydepositconfirmed`; a queue empties
in as many rounds as it has values. -/
def retryLoop (gp : GatewayInfo) (coinid : Nat) (one : Bool) : Nat → Replicas → Option Replicas
  | 0, lps => some lps
  | n + 1, lps =>
    match dequeueRetry lps coinid one with
    | (none, lps) => some lps
    | (some argjson, lps) =>
      match decodeDepositconfirmedJson gp lps argjson none with
      | none => none
      | some (code, lps) =>
        retryLoop gp coinid one n (if code ≠ 0 then enqueueRetry lps coinid (!one) argjson else lps)

def retryAll (gp : GatewayInfo) (lps : Replicas) (coinid : Nat) : Option Replicas :=
  (retryLoop gp coinid false (lps coinid).retrydepositconfirmed.zero.size lps).bind fun lps =>
    retryLoop gp coinid true (lps coinid).retrydepositconfirmed.one.size lps

/-- What a node meets, with the answers it gets. -/
inductive Step where
  | scan (coinid : Nat) (txid : Text) (k : Sighting) (decoded : Option Json)
  | assetevent (ev : AssetEvent) (validaddr : Bool)
  | depositConfirmed (sender txid : Text) (argjson : Json)
  | retry (coinid : Nat)
  | transfer (coinid : Nat) (txid : Nat → BitVec 64) (confirms : Nat → Int)
  | bind (sender : Text) (nxt64bits : BitVec 64) (argjson : Json)

def step (render : Text → Text) (satoshis : Text → BitVec 64) (gp : GatewayInfo) (lps : Replicas) :
    Step → Option Replicas
  | .scan coinid txid k decoded =>
    if gp.keeps coinid ∧ (gp.coin coinid).daemon then
      (scan satoshis (gp.coin coinid) (lps coinid) txid k decoded).map (Function.update lps coinid)
    else some lps
  | .assetevent ev validaddr => some (multigatewayAssetevent render gp lps ev validaddr)
  | .depositConfirmed sender txid argjson =>
    if isGatewayAddr sender then
      (decodeDepositconfirmedJson gp lps argjson (some txid)).map fun (code, lps) =>
        if 0 ≤ code then enqueueRetry lps code.toNat false argjson else lps
    else some lps
  | .retry coinid => if gp.keeps coinid then retryAll gp lps coinid else some lps
  | .transfer coinid txid confirms =>
    if gp.keeps coinid then
      some (Function.update lps coinid (transferAssets (gp.coin coinid) txid confirms (lps coinid)))
    else some lps
  | .bind sender nxt64bits argjson =>
    if isGatewayAddr sender then
      match decodeMsigjson (expandNxt64bits nxt64bits) argjson with
      | none => some lps
      | some msig =>
        let coinid := msig.coinid.toNat
        if gp.keeps coinid then
          some (Function.update lps coinid
            (updateAcctBinding (gp.coin coinid) (lps coinid) (expandNxt64bits nxt64bits) msig))
        else some lps
    else some lps

/-- What a step comes to: nothing, or the work of one handler. -/
inductive Handled (render : Text → Text) (satoshis : Text → BitVec 64) (gp : GatewayInfo) (lps : Replicas) :
    Step → Replicas → Prop where
  | idle (e : Step) : Handled render satoshis gp lps e lps
  | scan {coinid : Nat} {txid : Text} {k : Sighting} {decoded : Option Json} {s : Replica}
      (hscan : Gateway.scan satoshis (gp.coin coinid) (lps coinid) txid k decoded = some s) :
      Handled render satoshis gp lps (.scan coinid txid k decoded) (Function.update lps coinid s)
  | assetevent (ev : AssetEvent) (validaddr : Bool) :
      Handled render satoshis gp lps (.assetevent ev validaddr) (multigatewayAssetevent render gp lps ev validaddr)
  | depositConfirmed {sender txid : Text} {argjson : Json} {code : Int} {mid : Replicas}
      (hdecoded : decodeDepositconfirmedJson gp lps argjson (some txid) = some (code, mid)) :
      Handled render satoshis gp lps (.depositConfirmed sender txid argjson)
        (if 0 ≤ code then enqueueRetry mid code.toNat false argjson else mid)
  | retry {coinid : Nat} {lps' : Replicas} (hretry : retryAll gp lps coinid = some lps') :
      Handled render satoshis gp lps (.retry coinid) lps'
  | transfer (coinid : Nat) (txid : Nat → BitVec 64) (confirms : Nat → Int) :
      Handled render satoshis gp lps (.transfer coinid txid confirms)
        (Function.update lps coinid (transferAssets (gp.coin coinid) txid confirms (lps coinid)))
  | bind {sender : Text} {nxt64bits : BitVec 64} {argjson : Json} {msig : MultisigAddr}
      (hmsig : decodeMsigjson (expandNxt64bits nxt64bits) argjson = some msig) :
      Handled render satoshis gp lps (.bind sender nxt64bits argjson)
        (Function.update lps msig.coinid.toNat
          (updateAcctBinding (gp.coin msig.coinid.toNat) (lps msig.coinid.toNat) (expandNxt64bits nxt64bits) msig))

theorem Handled.of_ite {render : Text → Text} {satoshis : Text → BitVec 64} {gp : GatewayInfo} {lps lps' : Replicas}
    {e : Step} {p : Prop} [Decidable p] {work : Option Replicas}
    (hwork : work = some lps' → Handled render satoshis gp lps e lps')
    (h : (if p then work else some lps) = some lps') : Handled render satoshis gp lps e lps' := by
  by_cases hp : p
  · rw [if_pos hp] at h
    exact hwork h
  · rw [if_neg hp] at h
    obtain rfl := Option.some.inj h
    exact .idle e

theorem step_handled {render : Text → Text} {satoshis : Text → BitVec 64} {gp : GatewayInfo} {lps lps' : Replicas}
    {e : Step} (h : step render satoshis gp lps e = some lps') : Handled render satoshis gp lps e lps' := by
  cases e with
  | scan coinid txid k decoded =>
    refine Handled.of_ite (fun hwork => ?_) h
    obtain ⟨s, hscan, rfl⟩ := Option.map_eq_some_iff.mp hwork
    exact .scan hscan
  | assetevent ev validaddr =>
    obtain rfl := Option.some.inj h
    exact .assetevent ev validaddr
  | depositConfirmed sender txid argjson =>
    refine Handled.of_ite (fun hwork => ?_) h
    obtain ⟨⟨code, mid⟩, hdecoded, rfl⟩ := Option.map_eq_some_iff.mp hwork
    exact .depositConfirmed hdecoded
  | retry coinid => exact Handled.of_ite .retry h
  | transfer coinid txid confirms =>
    refine Handled.of_ite (fun hwork => ?_) h
    obtain rfl := Option.some.inj hwork
    exact .transfer coinid txid confirms
  | bind sender nxt64bits argjson =>
    refine Handled.of_ite (fun hwork => ?_) h
    cases hmsig : decodeMsigjson (expandNxt64bits nxt64bits) argjson with
    | none =>
      rw [hmsig] at hwork
      obtain rfl := Option.some.inj hwork
      exact .idle _
    | some msig =>
      rw [hmsig] at hwork
      refine Handled.of_ite (fun hbound => ?_) hwork
      obtain rfl := Option.some.inj hbound
      exact .bind hmsig

/-- A node that has met nothing. -/
def init : Replicas := fun _ => {}

/-- The states that a node can be in. -/
def Reachable (render : Text → Text) (satoshis : Text → BitVec 64) (gp : GatewayInfo) (lps : Replicas) :
    Prop :=
  ∃ es, Run.run (step render satoshis gp) init es = some lps

/-! ## A small gateway -/

/-- A binding of an address of DOGE. -/
def bindJson (addr : Text) : Json :=
  .object [("coinid".toList, .number "4".toList), ("coin".toList, .string "DOGE".toList),
    ("address".toList, .string addr), ("redeemScript".toList, .string "52".toList),
    ("pubkey".toList, .array [.object [], .object [], .object []])]

def voutJson (n value addr : Text) : Json :=
  .object [("n".toList, .number n), ("value".toList, .number value),
    ("scriptPubKey".toList,
      .object [("addresses".toList, .array [.string addr]), ("hex".toList, .string "76".toList)])]

def txJson (vouts : List Json) : Json := .object [("vout".toList, .array vouts), ("vin".toList, .array [])]

/-- Amounts without a fraction. -/
def wholeCoins (text : Text) : BitVec 64 := BitVec.ofInt 64 (atol text * 100000000)

/-- A block of the historical pass. -/
def historical : Sighting := { blockheight := 0, rtmode := Bool.false, height := 0, am := fun _ => 0#64 }

/-- A gateway that keeps DOGE, with a daemon. -/
def smallGateway (gatewayid : Int) : GatewayInfo :=
  { gatewayid := gatewayid, replicants := fun k => k == 4, daemons := fun k => k == 4 }

/-- The account `3` is bound to the address `A`. -/
def bindStep : Step := .bind nxtIssuerAcct 3#64 (bindJson "A".toList)

/-- A transaction with deposits of 5 and 7 coins to that address. -/
def depositTx : Json :=
  txJson [voutJson "0".toList "5".toList "A".toList, voutJson "1".toList "7".toList "A".toList]

def scanStep : Step := .scan 4 "t1".toList historical (some depositTx)

/-- The state of gateway `0` once it has seen the deposits. -/
def afterScan : Replicas := (Run.run (step id wholeCoins (smallGateway 0)) init [bindStep, scanStep]).getD init

theorem run_afterScan : Run.run (step id wholeCoins (smallGateway 0)) init [bindStep, scanStep] = some afterScan :=
  Run.run_getD (by decide +kernel) init

end NXTServices.Gateway
