import NXTServices.Gateway.Rpc

/-!
# New deposit addresses: the exchange between the gateways in `multisig.h`

* `DirectnetGetpubkey`, `processDirectnetGetpubkey` : the request to another gateway, and its answer;
* `getCoinaddr`, `getCoinaddrPubkey` : the address and the key of a gateway, its own or another one's;
* `genMultisigAddr`, `genDepositaddr` : the address of an account;
* `contact_own` : what a gateway says of itself is what the others hear;
* `genDepositaddr_keys` : **an address is made of the keys that the gateways' own daemons give**;
* `genDepositaddr_agree` : **the gateways make the same address**;
* `run_binds` : **each node ends with one binding**, however many of them publish it.

The texts are shorter than the buffers that they are copied to.
-/

namespace NXTServices.Gateway
open Json hiding null true false

/-! ## Requests -/

def multigatewayGetcoinaddr : Nat := 1
def multigatewayGetpubkey : Nat := 2

/-- `funcid` is that of the header. -/
structure DirectnetGetpubkey where
  funcid : Nat
  coinid : Int
  srcgateway : Int
  destgateway : Int
  flag : Int := 0
  nxtAddr : Text := []
  pubkey : Text := []
  coinaddr : Text := []

/-- What `bitcoind_RPC` gives back for a command and its parameters. -/
abbrev Rpc := Text → Text → Option Text

structure GatewayNode where
  gatewayid : Int
  daemons : Int → Option Rpc
  gateways : Int → List Text

/-- `get_daemon_info`. -/
def GatewayNode.daemon (gp : GatewayNode) (coinid : Int) : Option Rpc :=
  if 0 ≤ coinid ∧ coinid < 64 then gp.daemons coinid else none

section
variable (render : Text → Text)

def errorPubkey : Text := "error generating pubkey".toList

/-- The buffer, and whether it is returned. -/
def getBitcoindPubkey (cp : Option Rpc) (coinaddr : Text) : Bool × Text :=
  match cp with
  | none => (false, errorPubkey)
  | some rpc =>
    match rpc "validateaddress".toList (quoted coinaddr) with
    | none => (false, errorPubkey)
    | some retstr =>
      match cJSONParse render retstr with
      | none => (true, errorPubkey)
      | some json => (true, copyCJSON (getObjectItem json "pubkey".toList))

/-- `get_coinaddr` of the gateway itself. -/
def ownCoinaddr (rpc : Rpc) (nxtAddr : Text) : Option Text :=
  (rpc "getaccountaddress".toList (quoted nxtAddr)).map fun retstr => safecopy retstr 64

def processDirectnetGetpubkey (gp : GatewayNode) (req : DirectnetGetpubkey) : DirectnetGetpubkey :=
  match gp.daemon req.coinid with
  | none => { req with flag := 0 }
  | some cp =>
    if req.funcid = multigatewayGetcoinaddr then
      match ownCoinaddr cp req.nxtAddr with
      | some coinaddr => { req with coinaddr := coinaddr, flag := 1 }
      | none => { req with flag := -1 }
    else if req.funcid = multigatewayGetpubkey then
      let (returned, pubkey) := getBitcoindPubkey render (some cp) req.coinaddr
      { req with pubkey := pubkey, flag := if returned then 1 else -1 }
    else { req with flag := -1 }

/-- The gateways, and which requests are answered in full. -/
structure Network where
  node : Nat → GatewayNode
  answered : Nat → DirectnetGetpubkey → Bool

/-- A request as it comes back, `none` for a network error. -/
def issueDirectnetGetpubkey (net : Network) (gp : GatewayNode) (dest : Nat) (funcid : Nat) (argstr : Text)
    (coinid : Int) : Option DirectnetGetpubkey :=
  let rp : DirectnetGetpubkey :=
    { funcid := funcid, coinid := coinid, srcgateway := gp.gatewayid, destgateway := dest }
  let rp := if funcid = multigatewayGetcoinaddr then { rp with nxtAddr := safecopy argstr maxNxtaddrLen }
    else { rp with coinaddr := safecopy argstr 64 }
  if net.answered dest rp then some (processDirectnetGetpubkey render (net.node dest) rp) else none

def getCoinaddrPubkey (net : Network) (gp : GatewayNode) (gatewayid : Nat) (cp : Rpc) (coinid : Int) (coinaddr : Text) :
    Option Text :=
  if gatewayid = gp.gatewayid then
    let (returned, pubkey) := getBitcoindPubkey render (some cp) coinaddr
    if returned then some pubkey else none
  else
    match issueDirectnetGetpubkey render net gp gatewayid multigatewayGetpubkey coinaddr coinid with
    | some r => if 0 < r.flag ∧ r.pubkey ≠ [] then some (safecopy r.pubkey 128) else none
    | none => none

def getCoinaddr (net : Network) (gp : GatewayNode) (gatewayid : Nat) (cp : Rpc) (coinid : Int) (nxtAddr : Text) :
    Option Text :=
  if gatewayid = gp.gatewayid then ownCoinaddr cp nxtAddr
  else
    match issueDirectnetGetpubkey render net gp gatewayid multigatewayGetcoinaddr nxtAddr coinid with
    | some r => if 0 < r.flag ∧ r.coinaddr ≠ [] then some (safecopy r.coinaddr 64) else none
    | none => none

/-! ## The address -/

def createmultisigJsonParams (msig : MultisigAddr) : Text :=
  cJSONPrint (array [number (Torrent.decimal msig.m), array (msig.pubkeys.map fun ptr => string ptr.pubkey)])

/-- The keys are pairs of a key and the address it belongs to. -/
def genMultisigAddr (gp : GatewayNode) (m n : Nat) (cp : Rpc) (coinid : Int) (nxtAddr : Text)
    (keys : List (Text × Text)) :
    Option MultisigAddr :=
  let msig : MultisigAddr :=
    { nxtAddr := safecopy nxtAddr maxNxtaddrLen
      pubkeys := (List.range n).map fun i =>
        { pubkey := safecopy (keys.getD i ([], [])).1 128
          coinaddr := safecopy (keys.getD i ([], [])).2 64
          server := safecopy ((gp.gateways coinid).getD i []) 64 }
      m := m
      n := n
      coinid := coinid }
  match (cp "createmultisig".toList (createmultisigJsonParams msig)).bind (cJSONParse render) with
  | none => none
  | some json =>
    match getObjectItem json "address".toList, getObjectItem json "redeemScript".toList with
    | some msigobj, some redeemobj =>
      some { msig with multisigaddr := copyCJSON (some msigobj), redeemScript := copyCJSON (some redeemobj) }
    | _, _ => none

/-- The key and the address of a gateway. -/
def contact (net : Network) (gp : GatewayNode) (cp : Rpc) (coinid : Int) (nxtAddr : Text) (gatewayid : Nat) :
    Option (Text × Text) :=
  (getCoinaddr render net gp gatewayid cp coinid nxtAddr).bind fun coinaddr =>
    (getCoinaddrPubkey render net gp gatewayid cp coinid coinaddr).map fun pubkey => (pubkey, coinaddr)

/-- The loop is left at the first gateway that fails. -/
def genDepositaddr (net : Network) (gp : GatewayNode) (cp : Rpc) (coinid : Int) (nxtAddr : Text) :
    Option MultisigAddr :=
  if gp.gatewayid < 0 then none
  else
    ((List.range numGateways).mapM (contact render net gp cp coinid nxtAddr)).bind
      (genMultisigAddr render gp (numGateways - 1) numGateways cp coinid nxtAddr)

/-- What the gateway says of itself. -/
def ownKey (cp : Rpc) (nxtAddr : Text) : Option (Text × Text) :=
  (ownCoinaddr cp nxtAddr).bind fun coinaddr =>
    let (returned, pubkey) := getBitcoindPubkey render (some cp) coinaddr
    if returned then some (pubkey, coinaddr) else none

end

/-! ## What the others hear -/

section
variable {render : Text → Text} {net : Network} {gp : GatewayNode} {cp : Rpc} {coinid : Int} {nxtAddr : Text}

theorem length_ownCoinaddr {coinaddr : Text} (h : ownCoinaddr cp nxtAddr = some coinaddr) : coinaddr.length ≤ 64 := by
  obtain ⟨retstr, -, rfl⟩ := Option.map_eq_some_iff.mp h
  exact List.length_take_le 64 retstr

/-- An answer that says yes: to a request for an address, or for a key. -/
theorem processDirectnetGetpubkey_yes {req : DirectnetGetpubkey}
    (hflag : 0 < (processDirectnetGetpubkey render gp req).flag) : ∃ cp, gp.daemon req.coinid = some cp ∧
      (req.funcid = multigatewayGetcoinaddr ∧
          ownCoinaddr cp req.nxtAddr = some (processDirectnetGetpubkey render gp req).coinaddr ∨
        req.funcid = multigatewayGetpubkey ∧
          getBitcoindPubkey render (some cp) req.coinaddr =
          (true, (processDirectnetGetpubkey render gp req).pubkey)) := by
  have hno : ¬(0 : Int) < -1 := by decide
  unfold processDirectnetGetpubkey at hflag ⊢
  cases hcp : gp.daemon req.coinid with
  | none =>
    rw [hcp] at hflag
    exact absurd (show (0 : Int) < 0 from hflag) (by decide)
  | some cp =>
    rw [hcp] at hflag
    refine ⟨cp, rfl, ?_⟩
    dsimp only at hflag ⊢
    by_cases hcoinaddr : req.funcid = multigatewayGetcoinaddr
    · rw [if_pos hcoinaddr] at hflag ⊢
      cases hown : ownCoinaddr cp req.nxtAddr with
      | none =>
        rw [hown] at hflag
        exact absurd hflag hno
      | some coinaddr => exact .inl ⟨hcoinaddr, rfl⟩
    · rw [if_neg hcoinaddr] at hflag ⊢
      by_cases hpubkey : req.funcid = multigatewayGetpubkey
      · rw [if_pos hpubkey] at hflag ⊢
        rcases hkey : getBitcoindPubkey render (some cp) req.coinaddr with ⟨_ | _, pubkey⟩
        · rw [hkey] at hflag
          exact absurd hflag hno
        · exact .inr ⟨hpubkey, rfl⟩
      · rw [if_neg hpubkey] at hflag
        exact absurd hflag hno

theorem issue_getcoinaddr {dest : Nat} {r : DirectnetGetpubkey} (hnxt : nxtAddr.length ≤ maxNxtaddrLen)
    (h : issueDirectnetGetpubkey render net gp dest multigatewayGetcoinaddr nxtAddr coinid = some r)
    (hflag : 0 < r.flag) :
    ∃ cp, (net.node dest).daemon coinid = some cp ∧ ownCoinaddr cp nxtAddr = some r.coinaddr := by
  have htake : safecopy nxtAddr maxNxtaddrLen = nxtAddr := List.take_of_length_le hnxt
  unfold issueDirectnetGetpubkey at h
  dsimp only at h
  rw [if_pos rfl, htake] at h
  obtain ⟨-, heq⟩ := Option.ite_none_right_eq_some.mp h
  obtain rfl := Option.some.inj heq
  obtain ⟨cp, hcp, ⟨-, hown⟩ | ⟨hother, -⟩⟩ := processDirectnetGetpubkey_yes hflag
  · exact ⟨cp, hcp, hown⟩
  · cases hother

theorem issue_getpubkey {dest : Nat} {coinaddr : Text} {r : DirectnetGetpubkey} (hcoinaddr : coinaddr.length ≤ 64)
    (h : issueDirectnetGetpubkey render net gp dest multigatewayGetpubkey coinaddr coinid = some r)
    (hflag : 0 < r.flag) :
    ∃ cp, (net.node dest).daemon coinid = some cp ∧ getBitcoindPubkey render (some cp) coinaddr = (true, r.pubkey) := by
  have htake : safecopy coinaddr 64 = coinaddr := List.take_of_length_le hcoinaddr
  have hfuncid : multigatewayGetpubkey ≠ multigatewayGetcoinaddr := by decide
  unfold issueDirectnetGetpubkey at h
  dsimp only at h
  rw [if_neg hfuncid, htake] at h
  obtain ⟨-, heq⟩ := Option.ite_none_right_eq_some.mp h
  obtain rfl := Option.some.inj heq
  obtain ⟨cp, hcp, ⟨hother, -⟩ | ⟨-, hkey⟩⟩ := processDirectnetGetpubkey_yes hflag
  · cases hother
  · exact ⟨cp, hcp, hkey⟩

/-- **What a gateway says of itself is what the others hear.** -/
theorem contact_own (hself : ∀ i : Nat, i = gp.gatewayid → net.node i = gp) (hcp : gp.daemon coinid = some cp)
    (hnxt : nxtAddr.length ≤ maxNxtaddrLen) {i : Nat} {heard : Text × Text}
    (h : contact render net gp cp coinid nxtAddr i = some heard) :
    ∃ cp' key, (net.node i).daemon coinid = some cp' ∧ ownKey render cp' nxtAddr = some (key, heard.2) ∧
      safecopy heard.1 128 = safecopy key 128 := by
  obtain ⟨coinaddr, haddr, hmap⟩ := Option.bind_eq_some_iff.mp h
  obtain ⟨pubkey, hpubkey, rfl⟩ := Option.map_eq_some_iff.mp hmap
  unfold getCoinaddr at haddr
  unfold getCoinaddrPubkey at hpubkey
  by_cases hown : i = gp.gatewayid
  · rw [if_pos hown] at haddr hpubkey
    obtain ⟨hreturned, heq⟩ := Option.ite_none_right_eq_some.mp hpubkey
    obtain rfl := Option.some.inj heq
    refine ⟨cp, _, ?_, ?_, rfl⟩
    · rw [hself i hown]
      exact hcp
    · rw [ownKey, haddr]
      exact if_pos hreturned
  · rw [if_neg hown] at haddr hpubkey
    cases hr : issueDirectnetGetpubkey render net gp i multigatewayGetcoinaddr nxtAddr coinid with
    | none =>
      rw [hr] at haddr
      cases haddr
    | some r =>
      rw [hr] at haddr
      obtain ⟨⟨hflag, -⟩, heq⟩ := Option.ite_none_right_eq_some.mp haddr
      obtain ⟨cp', hcp', hraddr⟩ := issue_getcoinaddr hnxt hr hflag
      have hlen := length_ownCoinaddr hraddr
      obtain rfl : r.coinaddr = coinaddr := (List.take_of_length_le hlen).symm.trans (Option.some.inj heq)
      cases hr' : issueDirectnetGetpubkey render net gp i multigatewayGetpubkey r.coinaddr coinid with
      | none =>
        rw [hr'] at hpubkey
        cases hpubkey
      | some r' =>
        rw [hr'] at hpubkey
        obtain ⟨⟨hflag', -⟩, heq'⟩ := Option.ite_none_right_eq_some.mp hpubkey
        obtain rfl := Option.some.inj heq'
        obtain ⟨cp'', hcp'', hkey⟩ := issue_getpubkey hlen hr' hflag'
        obtain rfl := Option.some.inj (hcp'.symm.trans hcp'')
        refine ⟨cp', r'.pubkey, hcp', ?_, List.take_take.trans (by rw [Nat.min_self]; rfl)⟩
        rw [ownKey, hraddr, Option.bind_some, hkey]
        rfl

end

/-! ## Agreement -/

/-- The gateways are numbered, and know each other under the same names. -/
structure Network.Acquainted (net : Network) (coinid : Int) : Prop where
  numbered : ∀ i < numGateways, (net.node i).gatewayid = i
  servers : ∀ i < numGateways, ∀ j < numGateways, (net.node i).gateways coinid = (net.node j).gateways coinid

/-- Their daemons make the same address of the same keys. -/
structure Network.Uniform (net : Network) (coinid : Int) : Prop extends net.Acquainted coinid where
  createmultisig : ∀ i < numGateways, ∀ j < numGateways, ∀ cp cp', (net.node i).daemon coinid = some cp →
    (net.node j).daemon coinid = some cp' → cp "createmultisig".toList = cp' "createmultisig".toList

/-- The address that a gateway makes with its daemon. -/
def depositaddr (render : Text → Text) (net : Network) (i : Nat) (coinid : Int) (nxtAddr : Text) :
    Option MultisigAddr :=
  ((net.node i).daemon coinid).bind fun cp => genDepositaddr render net (net.node i) cp coinid nxtAddr

section
variable {render : Text → Text} {net : Network} {coinid : Int} {nxtAddr : Text} {i j : Nat} {msig : MultisigAddr}

theorem mapM_getD {α β : Type} {f : α → Option β} {xs : List α} {ys : List β} (h : xs.mapM f = some ys) (d : β)
    {k : Nat} (hk : k < xs.length) : f (xs.get ⟨k, hk⟩) = some (ys.getD k d) := by
  induction xs generalizing ys k with
  | nil => exact absurd hk (Nat.not_lt_zero k)
  | cons x xs ih =>
    rw [List.mapM_cons] at h
    obtain ⟨y, hy, hrest⟩ := Option.bind_eq_some_iff.mp h
    obtain ⟨ys', hys, heq⟩ := Option.bind_eq_some_iff.mp hrest
    obtain rfl := Option.some.inj heq
    cases k with
    | zero => exact hy
    | succ k => exact ih hys (Nat.lt_of_succ_lt_succ hk)

/-- The entry of a gateway in the address. -/
def keyOf (gp : GatewayNode) (coinid : Int) (k : Nat) (key coinaddr : Text) : PubkeyInfo where
  pubkey := safecopy key 128
  coinaddr := safecopy coinaddr 64
  server := safecopy ((gp.gateways coinid).getD k []) 64

/-- An address before its text is known. -/
def unnamed (gp : GatewayNode) (coinid : Int) (nxtAddr : Text) (keys : List (Text × Text)) : MultisigAddr where
  nxtAddr := safecopy nxtAddr maxNxtaddrLen
  pubkeys := (List.range numGateways).map fun k =>
    keyOf gp coinid k (keys.getD k ([], [])).1 (keys.getD k ([], [])).2
  m := numGateways - 1
  n := numGateways
  coinid := coinid

/-- The text and the script that a daemon makes of the keys. -/
def named (render : Text → Text) (cp : Rpc) (msig : MultisigAddr) : Option MultisigAddr :=
  match (cp "createmultisig".toList (createmultisigJsonParams msig)).bind (cJSONParse render) with
  | none => none
  | some json =>
    match getObjectItem json "address".toList, getObjectItem json "redeemScript".toList with
    | some msigobj, some redeemobj =>
      some { msig with multisigaddr := copyCJSON (some msigobj), redeemScript := copyCJSON (some redeemobj) }
    | _, _ => none

theorem genMultisigAddr_eq (gp : GatewayNode) (cp : Rpc) (keys : List (Text × Text)) :
    genMultisigAddr render gp (numGateways - 1) numGateways cp coinid nxtAddr keys =
      named render cp (unnamed gp coinid nxtAddr keys) := rfl

theorem named_congr {cp cp' : Rpc} (h : cp "createmultisig".toList = cp' "createmultisig".toList)
    (msig : MultisigAddr) :
    named render cp msig = named render cp' msig := by
  unfold named
  rw [h]

theorem pubkeys_of_named {cp : Rpc} {from' : MultisigAddr} (h : named render cp from' = some msig) :
    msig.pubkeys = from'.pubkeys ∧ msig.nxtAddr = from'.nxtAddr ∧ msig.coinid = from'.coinid := by
  unfold named at h
  split at h
  · cases h
  · split at h
    · obtain rfl := Option.some.inj h
      exact ⟨rfl, rfl, rfl⟩
    · cases h

/-- What an address is made of. -/
theorem depositaddr_cases (hnet : net.Acquainted coinid) (hnxt : nxtAddr.length ≤ maxNxtaddrLen) (hi : i < numGateways)
    (h : depositaddr render net i coinid nxtAddr = some msig) : ∃ cp keys, (net.node i).daemon coinid = some cp ∧
      named render cp (unnamed (net.node i) coinid nxtAddr keys) = some msig ∧
      ∀ k < numGateways, ∃ cp' key, (net.node k).daemon coinid = some cp' ∧
        ownKey render cp' nxtAddr = some (key, (keys.getD k ([], [])).2) ∧
        safecopy (keys.getD k ([], [])).1 128 = safecopy key 128 := by
  obtain ⟨cp, hcp, hgen⟩ := Option.bind_eq_some_iff.mp h
  unfold genDepositaddr at hgen
  have hnumber : ¬(net.node i).gatewayid < 0 := by
    rw [hnet.numbered i hi]
    omega
  rw [if_neg hnumber] at hgen
  obtain ⟨keys, hkeys, hmsig⟩ := Option.bind_eq_some_iff.mp hgen
  refine ⟨cp, keys, hcp, hmsig, ?_⟩
  intro k hk
  have hk' : k < (List.range numGateways).length := hk
  have hcontact := mapM_getD hkeys ([], []) hk'
  rw [List.get_eq_getElem, List.getElem_range] at hcontact
  refine contact_own ?_ hcp hnxt hcontact
  intro k' hk'
  rw [hnet.numbered i hi] at hk'
  rw [Int.ofNat_inj.mp hk']

theorem unnamed_congr {gp gp' : GatewayNode} {keys keys' : List (Text × Text)}
    (hservers : gp.gateways coinid = gp'.gateways coinid)
    (hkeys : ∀ k < numGateways, safecopy (keys.getD k ([], [])).1 128 = safecopy (keys'.getD k ([], [])).1 128 ∧
      (keys.getD k ([], [])).2 = (keys'.getD k ([], [])).2) :
    unnamed gp coinid nxtAddr keys = unnamed gp' coinid nxtAddr keys' := by
  have hpubkeys : ((List.range numGateways).map fun k =>
        keyOf gp coinid k (keys.getD k ([], [])).1 (keys.getD k ([], [])).2) =
      (List.range numGateways).map fun k => keyOf gp' coinid k (keys'.getD k ([], [])).1 (keys'.getD k ([], [])).2 := by
    apply List.map_congr_left
    intro k hk
    obtain ⟨hkey, haddr⟩ := hkeys k (List.mem_range.mp hk)
    rw [keyOf, keyOf, hkey, haddr, hservers]
  rw [unnamed, unnamed, hpubkeys]

/-- **The gateways make the same address**, whichever requests were lost on the way. -/
theorem depositaddr_agree (hnet : net.Uniform coinid) (hnxt : nxtAddr.length ≤ maxNxtaddrLen) (hi : i < numGateways)
    (hj : j < numGateways) {msig' : MultisigAddr} (h : depositaddr render net i coinid nxtAddr = some msig)
    (h' : depositaddr render net j coinid nxtAddr = some msig') : msig = msig' := by
  obtain ⟨cp, keys, hcp, hmsig, hkeys⟩ := depositaddr_cases hnet.toAcquainted hnxt hi h
  obtain ⟨cp', keys', hcp', hmsig', hkeys'⟩ := depositaddr_cases hnet.toAcquainted hnxt hj h'
  have hsame : unnamed (net.node i) coinid nxtAddr keys = unnamed (net.node j) coinid nxtAddr keys' := by
    apply unnamed_congr (hnet.servers i hi j hj)
    intro k hk
    obtain ⟨cpk, key, hcpk, hown, hkey⟩ := hkeys k hk
    obtain ⟨cpk', key', hcpk', hown', hkey'⟩ := hkeys' k hk
    obtain rfl := Option.some.inj (hcpk.symm.trans hcpk')
    obtain ⟨rfl, haddr⟩ := Prod.mk.inj (Option.some.inj (hown.symm.trans hown'))
    exact ⟨hkey.trans hkey'.symm, haddr⟩
  rw [hsame, named_congr (hnet.createmultisig i hi j hj cp cp' hcp hcp')] at hmsig
  exact Option.some.inj (hmsig.symm.trans hmsig')

theorem nxtAddr_of_depositaddr (hnet : net.Acquainted coinid) (hnxt : nxtAddr.length ≤ maxNxtaddrLen)
    (hi : i < numGateways) (h : depositaddr render net i coinid nxtAddr = some msig) : msig.nxtAddr = nxtAddr := by
  obtain ⟨cp, keys, -, hmsig, -⟩ := depositaddr_cases hnet hnxt hi h
  exact (pubkeys_of_named hmsig).2.1.trans (List.take_of_length_le hnxt)

/-- **An address is made of the keys that the gateways' own daemons give**, in the order of the gateways. -/
theorem depositaddr_keys (hnet : net.Acquainted coinid) (hnxt : nxtAddr.length ≤ maxNxtaddrLen) (hi : i < numGateways)
    (h : depositaddr render net i coinid nxtAddr = some msig) :
    msig.nxtAddr = nxtAddr ∧ msig.coinid = coinid ∧ msig.pubkeys.length = numGateways ∧
      ∀ k < numGateways, ∃ cp key coinaddr, (net.node k).daemon coinid = some cp ∧
        ownKey render cp nxtAddr = some (key, coinaddr) ∧
        msig.pubkeys[k]? = some (keyOf (net.node k) coinid k key coinaddr) := by
  obtain ⟨cp, keys, -, hmsig, hkeys⟩ := depositaddr_cases hnet hnxt hi h
  obtain ⟨hpubkeys, haddr, hcoinid⟩ := pubkeys_of_named hmsig
  refine ⟨haddr.trans (List.take_of_length_le hnxt), hcoinid, ?_, ?_⟩
  · rw [hpubkeys]
    rfl
  · intro k hk
    obtain ⟨cp', key, hcp', hown, hkey⟩ := hkeys k hk
    refine ⟨cp', key, _, hcp', hown, ?_⟩
    rw [hpubkeys, unnamed]
    dsimp only
    rw [List.getElem?_map, List.getElem?_range hk, Option.map_some, keyOf, keyOf, hkey, hnet.servers i hi k hk]

end

/-! ## The bindings -/

/-- The message in which a gateway publishes the address. -/
def bindMessage (render : Text → Text) (net : Network) (i : Nat) (coinid : Int) (nxtAddr : Text) : Option Json :=
  ((depositaddr render net i coinid nxtAddr).bind createMultisigJson).bind (cJSONParse render)

section
variable {c : Coin} {s : Replica} {nxtAddr : Text} {msig msig' : MultisigAddr}

theorem any_sameMsig_updateAcctBinding (hlegal : c.legal) (nxtAddr : Text) (msig : MultisigAddr) :
    ((updateAcctBinding c s nxtAddr msig).accts (acctKey nxtAddr)).msigs.any (sameMsig · msig) := by
  have hacct : getCoinAcct c s nxtAddr = some (s.accts (acctKey nxtAddr)) := if_pos hlegal
  rw [updateAcctBinding, hacct]
  dsimp only
  split
  · next hany => exact hany
  · show ((Function.update s.accts (acctKey nxtAddr) _) (acctKey nxtAddr)).msigs.any (sameMsig · msig)
    rw [Function.update_self, List.any_append]
    have hsame : sameMsig msig msig = true := (sameMsig_iff msig msig).mpr rfl
    simp [hsame]

theorem updateAcctBinding_twice (nxtAddr : Text) (msig : MultisigAddr) :
    updateAcctBinding c (updateAcctBinding c s nxtAddr msig) nxtAddr msig = updateAcctBinding c s nxtAddr msig := by
  by_cases hlegal : c.legal
  · have hacct : getCoinAcct c (updateAcctBinding c s nxtAddr msig) nxtAddr =
        some ((updateAcctBinding c s nxtAddr msig).accts (acctKey nxtAddr)) := if_pos hlegal
    conv_lhs => rw [updateAcctBinding, hacct]
    exact if_pos (any_sameMsig_updateAcctBinding hlegal nxtAddr msig)
  · rw [updateAcctBinding_illegal hlegal, updateAcctBinding_illegal hlegal]

end

theorem bindMessage_agree {render : Text → Text} {net : Network} {coinid : Int} (hnet : net.Uniform coinid)
    {nxt64bits : BitVec 64} {i j : Nat} (hi : i < numGateways) (hj : j < numGateways) {argjson argjson' : Json}
    (h : bindMessage render net i coinid (expandNxt64bits nxt64bits) = some argjson)
    (h' : bindMessage render net j coinid (expandNxt64bits nxt64bits) = some argjson') : argjson = argjson' := by
  obtain ⟨text, htext, hparse⟩ := Option.bind_eq_some_iff.mp h
  obtain ⟨text', htext', hparse'⟩ := Option.bind_eq_some_iff.mp h'
  obtain ⟨msig, hmsig, hcreate⟩ := Option.bind_eq_some_iff.mp htext
  obtain ⟨msig', hmsig', hcreate'⟩ := Option.bind_eq_some_iff.mp htext'
  have hnxt : (expandNxt64bits nxt64bits).length ≤ maxNxtaddrLen := (length_expandNxt64bits nxt64bits).trans (by decide)
  obtain rfl := depositaddr_agree hnet hnxt hi hj hmsig hmsig'
  obtain rfl := Option.some.inj (hcreate.symm.trans hcreate')
  exact Option.some.inj (hparse.symm.trans hparse')

section
variable {render : Text → Text} {satoshis : Text → BitVec 64} {gp : GatewayInfo} {lps lps' : Replicas}

theorem step_bind {sender : Text} (hsender : isGatewayAddr sender) (nxt64bits : BitVec 64) (argjson : Json)
    (lps : Replicas) : step render satoshis gp lps (.bind sender nxt64bits argjson) =
      match decodeMsigjson (expandNxt64bits nxt64bits) argjson with
      | none => some lps
      | some msig =>
        if gp.keeps msig.coinid.toNat then
          some (Function.update lps msig.coinid.toNat (updateAcctBinding (gp.coin msig.coinid.toNat)
            (lps msig.coinid.toNat) (expandNxt64bits nxt64bits) msig))
        else some lps := if_pos hsender

/-- The message of a binding that another gateway repeats changes nothing. -/
theorem step_bind_twice {sender sender' : Text} (hsender : isGatewayAddr sender) (hsender' : isGatewayAddr sender')
    {nxt64bits : BitVec 64} {argjson : Json}
    (h : step render satoshis gp lps (.bind sender nxt64bits argjson) = some lps') :
    step render satoshis gp lps' (.bind sender' nxt64bits argjson) = some lps' := by
  rw [step_bind hsender] at h
  rw [step_bind hsender']
  cases hmsig : decodeMsigjson (expandNxt64bits nxt64bits) argjson with
  | none => rfl
  | some msig =>
    rw [hmsig] at h
    dsimp only at h ⊢
    by_cases hkeeps : gp.keeps msig.coinid.toNat
    · rw [if_pos hkeeps] at h ⊢
      obtain rfl := Option.some.inj h
      rw [Function.update_self, updateAcctBinding_twice, Function.update_idem]
    · rw [if_neg hkeeps]

/-- A published address is bound. -/
theorem step_bind_printable {sender : Text} (hsender : isGatewayAddr sender) {nxt64bits : BitVec 64}
    {msig : MultisigAddr} (h : Printable msig) (hnxt : msig.nxtAddr = expandNxt64bits nxt64bits)
    (hkeeps : gp.keeps msig.coinid.toNat)
    (lps : Replicas) :
    ∃ lps', step render satoshis gp lps (.bind sender nxt64bits (fieldsNode (msigFields msig))) = some lps' ∧
      ((lps' msig.coinid.toNat).accts (acctKey msig.nxtAddr)).msigs.any (sameMsig · msig) := by
  have hdecode := decodeMsigjson_msigFields h
  have hlegal : (gp.coin msig.coinid.toNat).legal := by
    obtain ⟨hpos, -, -, -⟩ := named_bounds h.coin
    have hcoinid : ((msig.coinid.toNat : Nat) : Int) = msig.coinid := by omega
    show (coinidStr ((msig.coinid.toNat : Nat) : Int) != illegalCoin) = true
    rw [hcoinid, bne_iff_ne]
    exact h.coin
  refine ⟨Function.update lps msig.coinid.toNat (updateAcctBinding (gp.coin msig.coinid.toNat) (lps msig.coinid.toNat)
    msig.nxtAddr { msig with m := numGateways - 1, n := numGateways }), ?_, ?_⟩
  · rw [step_bind hsender, ← hnxt, hdecode]
    exact if_pos hkeeps
  · rw [Function.update_self]
    exact any_sameMsig_updateAcctBinding hlegal msig.nxtAddr { msig with m := numGateways - 1, n := numGateways }

/-- **Each node ends with one binding**: the gateways that make an address of an account may all publish it, in any
order and as often as they like. After the first message nothing changes, and the account has the address. -/
theorem run_binds (net : Network) {coinid : Int} (hnet : net.Uniform coinid) (nxt64bits : BitVec 64)
    (gens : List (Nat × Text)) (hgens : ∀ g ∈ gens, g.1 < numGateways ∧ isGatewayAddr g.2) (lps : Replicas) :
    let binds := gens.filterMap fun g =>
      (bindMessage render net g.1 coinid (expandNxt64bits nxt64bits)).map (Step.bind g.2 nxt64bits)
    Run.run (step render satoshis gp) lps binds = Run.run (step render satoshis gp) lps (binds.take 1) ∧
      ∀ g ∈ gens, ∀ msig, depositaddr render net g.1 coinid (expandNxt64bits nxt64bits) = some msig → Printable msig →
        gp.keeps msig.coinid.toNat → ∃ lps', Run.run (step render satoshis gp) lps binds = some lps' ∧
          ((lps' msig.coinid.toNat).accts (acctKey msig.nxtAddr)).msigs.any (sameMsig · msig) := by
  intro binds
  have htake : Run.run (step render satoshis gp) lps binds = Run.run (step render satoshis gp) lps (binds.take 1) := by
    apply Run.run_take_one
    intro e he e' he' lps lps' hstep
    obtain ⟨⟨i, sender⟩, hg, hbind⟩ := List.mem_filterMap.mp he
    obtain ⟨⟨j, sender'⟩, hg', hbind'⟩ := List.mem_filterMap.mp he'
    obtain ⟨argjson, hmessage, rfl⟩ := Option.map_eq_some_iff.mp hbind
    obtain ⟨argjson', hmessage', rfl⟩ := Option.map_eq_some_iff.mp hbind'
    obtain rfl : argjson = argjson' := bindMessage_agree hnet (hgens _ hg).1 (hgens _ hg').1 hmessage hmessage'
    exact step_bind_twice (hgens _ hg).2 (hgens _ hg').2 hstep
  refine ⟨htake, ?_⟩
  intro g hg msig hmsig hprintable hkeeps
  have hnxt : (expandNxt64bits nxt64bits).length ≤ maxNxtaddrLen := (length_expandNxt64bits nxt64bits).trans (by decide)
  have haddr := nxtAddr_of_depositaddr hnet.toAcquainted hnxt (hgens g hg).1 hmsig
  have hmessage : bindMessage render net g.1 coinid (expandNxt64bits nxt64bits) =
      some (fieldsNode (msigFields msig)) := by
    rw [bindMessage, hmsig, Option.bind_some, createMultisigJson_eq hprintable, Option.bind_some,
      cJSONParse_spells (spells_jsontxt hprintable)]
  have hmem : Step.bind g.2 nxt64bits (fieldsNode (msigFields msig)) ∈ binds :=
    List.mem_filterMap.mpr ⟨g, hg, by rw [hmessage, Option.map_some]⟩
  obtain ⟨e, rest, hbinds⟩ := List.exists_cons_of_ne_nil (List.ne_nil_of_mem hmem)
  have hfirst : e ∈ binds := hbinds ▸ List.mem_cons_self
  obtain ⟨⟨i, sender⟩, hgi, hbind⟩ := List.mem_filterMap.mp hfirst
  obtain ⟨argjson, hargjson, rfl⟩ := Option.map_eq_some_iff.mp hbind
  obtain rfl := bindMessage_agree hnet (hgens _ hgi).1 (hgens g hg).1 hargjson hmessage
  obtain ⟨lps', hstep, hany⟩ := step_bind_printable (hgens _ hgi).2 hprintable haddr hkeeps lps
  refine ⟨lps', ?_, hany⟩
  rw [htake, hbinds]
  exact (Run.run_singleton _).trans hstep

end

/-! ## A small network -/

/-- A daemon with one address, and the key of it. -/
def smallRpc (coinaddr pubkey : String) : Rpc := fun command _ =>
  if command = "getaccountaddress".toList then some coinaddr.toList
  else if command = "validateaddress".toList then some (fieldsText [("pubkey", quoted pubkey.toList, .null)])
  else some (fieldsText [("address", quoted "9v".toList, .null), ("redeemScript", quoted "52".toList, .null)])

def smallNode (i : Nat) : GatewayNode where
  gatewayid := i
  daemons _ := some (smallRpc (["Da", "Db", "Dc"].getD i "") (["02aa", "02bb", "03cc"].getD i ""))
  gateways _ := ["gw0".toList, "gw1".toList, "gw2".toList]

/-- The requests to the gateway `unanswered` are lost. -/
def smallNetwork (unanswered : Nat) : Network where
  node := smallNode
  answered dest _ := dest ≠ unanswered

theorem uniform_smallNetwork (unanswered : Nat) : (smallNetwork unanswered).Uniform 4 where
  numbered _ _ := rfl
  servers _ _ _ _ := rfl
  createmultisig i _ j _ cp cp' hcp hcp' := by
    obtain rfl := Option.some.inj hcp
    obtain rfl := Option.some.inj hcp'
    rfl

/-- The address of the account `5` in that network. -/
def smallAddr : MultisigAddr where
  nxtAddr := "5".toList
  multisigaddr := "9v".toList
  redeemScript := "52".toList
  pubkeys := [⟨"02aa".toList, "Da".toList, "gw0".toList⟩, ⟨"02bb".toList, "Db".toList, "gw1".toList⟩,
    ⟨"03cc".toList, "Dc".toList, "gw2".toList⟩]
  m := 2
  n := 3
  coinid := 4

theorem depositaddr_smallNetwork : depositaddr id (smallNetwork 0) 0 4 (expandNxt64bits 5#64) = some smallAddr := by
  decide +kernel

theorem printable_smallAddr : Printable smallAddr where
  coin := by decide
  pubkeys := rfl
  nxtAddr := by decide
  multisigaddr := by decide
  redeemScript := by decide
  keys := by
    simp only [smallAddr, List.forall_mem_cons]
    exact ⟨⟨by decide, by decide, by decide⟩, ⟨by decide, by decide, by decide⟩, ⟨by decide, by decide, by decide⟩,
      List.forall_mem_nil _⟩

/-- The gateway `0`, which the others cannot reach, has the address of all three. -/
theorem depositaddr_keys_unreached : ∃ cp key coinaddr, (smallNode 1).daemon 4 = some cp ∧
    ownKey id cp (expandNxt64bits 5#64) = some (key, coinaddr) ∧
    smallAddr.pubkeys[1]? = some (keyOf (smallNode 1) 4 1 key coinaddr) :=
  (depositaddr_keys (uniform_smallNetwork 0).toAcquainted (by decide) (by decide) depositaddr_smallNetwork).2.2.2 1
  (by decide)

/-- The gateways `0` and `2` publish, and only one of them has an address. -/
theorem run_binds_unreached : ∃ lps', Run.run (step id wholeCoins (smallGateway 0)) init
      ([(0, nxtAcctA), (2, nxtAcctC), (0, nxtAcctA)].filterMap fun g =>
        (bindMessage id (smallNetwork 0) g.1 4 (expandNxt64bits 5#64)).map (Step.bind g.2 5#64)) = some lps' ∧
    ((lps' 4).accts (acctKey "5".toList)).msigs.any (sameMsig · smallAddr) :=
  (run_binds (smallNetwork 0) (uniform_smallNetwork 0) 5#64 [(0, nxtAcctA), (2, nxtAcctC), (0, nxtAcctA)] (by decide)
    init).2 (0, nxtAcctA) (by decide) smallAddr depositaddr_smallNetwork printable_smallAddr (by decide)

end NXTServices.Gateway
