import NXTServices.Gateway.Event

/-!
# Reads of `replicants`: `multifind.h`, `balances.h`, `multigateway.h` and `multideposit.h`

* `Indexed` : a result behind the indices at which `replicants` is read on the way;
* `getReplicatedCoininfo`, `updateBalanceInfoIndexed`, `findCoinTxidIndexed` : the accessors;
* `multigatewayAsseteventIndexed`, `decodeDepositconfirmedJsonIndexed` : their callers;
* `multigatewayAsseteventIndexed_snd`, `decodeDepositconfirmedJsonIndexed_snd` : they do what the functions do;
* `foreign_assets_iff` : which assets and which messages read within the array.
-/

namespace NXTServices.Gateway
open Json

/-! ## Accessors -/

/-- A result, with the indices of the reads before it. -/
abbrev Indexed (α : Type) := List Int × α

namespace Indexed
variable {α β : Type}

def bind (x : Indexed α) (f : α → Indexed β) : Indexed β := (x.1 ++ (f x.2).1, (f x.2).2)

@[simp] theorem bind_snd (x : Indexed α) (f : α → Indexed β) : (x.bind f).2 = (f x.2).2 := rfl

@[simp] theorem bind_fst (x : Indexed α) (f : α → Indexed β) : (x.bind f).1 = x.1 ++ (f x.2).1 := rfl

/-- Nothing is read but at `n`. -/
def Only (n : Int) (x : Indexed α) : Prop := ∀ i ∈ x.1, i = n

theorem Only.nil (n : Int) (a : α) : Only n (([], a) : Indexed α) := List.forall_mem_nil _

theorem Only.one (n : Int) (a : α) : Only n (([n], a) : Indexed α) := fun _ h => List.mem_singleton.mp h

theorem Only.bind {n : Int} {x : Indexed α} {f : α → Indexed β} (hx : Only n x) (hf : ∀ a, Only n (f a)) :
    Only n (x.bind f) := by
  intro i hi
  rcases List.mem_append.mp hi with hi | hi
  · exact hx i hi
  · exact hf x.2 i hi

end Indexed

open Indexed (Only)

/-- `replicants[coinid]`, whatever the number is. Before the array stands the unused end of a name of `gateways`, which
is null. -/
def getReplicatedCoininfo (gp : GatewayInfo) (coinid : Int) : Indexed Bool :=
  ([coinid], 0 ≤ coinid && gp.keeps coinid.toNat)

/-- `update_balance_info`, which begins with `get_balance_info`. -/
def updateBalanceInfoIndexed (c : Coin) (s : Replica) : Indexed Replica := ([(c.coinid : Int)], s)

/-- `find_coin_txid`. -/
def findCoinTxidIndexed (c : Coin) : Indexed Unit := ([(c.coinid : Int)], ())

/-! ## Asset transfers -/

def crosschainEventIndexed (c : Coin) (s : Replica) (ev : AssetEvent) (json obj : Json) : Indexed Replica :=
  if convCoinstr (copyCJSON (some obj)) = some c.coinid then
    let vout := int32 (getCJSONInt json "vout".toList)
    let cointxid := copyCJSON (getObjectItem json "cointxid".toList)
    if cointxid = [] then ([], s)
    else
      let t := Hashtable.storeKey maxCointxidLen cointxid
      let s := (s.addTp cointxid).modifyTp t fun tp => { tp with nxtXferbits := calcNxt64bits ev.txid }
      match depositOf s t vout with
      | some (r, xp) =>
        ([],
          if xp.nxt.assetTxid = 0#64 then
            s.modifyXp r fun xp => { xp with nxt := { xp.nxt with assetTxid := calcNxt64bits ev.txid } }
          else s)
      | none =>
        if c.daemon then ([], s)
        else updateBalanceInfoIndexed c (depositTransferNXTacct c s ev.sender ev.assetoshis t vout)
  else ([], s)

/-- A redemption reads the account of its sender and no `replicants`. -/
def assetcommandIndexed (render : Text → Text) (c : Coin) (s : Replica) (ev : AssetEvent) (validaddr : Bool) :
    Indexed Replica :=
  match cJSONParse render ev.text with
  | none => ([], s)
  | some json =>
    match getObjectItem json "crosschain".toList with
    | some obj => crosschainEventIndexed c s ev json obj
    | none => ([], redeemEvent c s ev json validaddr)

/-- The number that `conv_assetid` answers. -/
def assetIndex (assetid : Text) : Int :=
  match convAssetid assetid with
  | some coinid => coinid
  | none => -1

def multigatewayAsseteventIndexed (render : Text → Text) (gp : GatewayInfo) (lps : Replicas) (ev : AssetEvent)
    (validaddr : Bool) : Indexed Replicas :=
  (getReplicatedCoininfo gp (assetIndex ev.assetid)).bind fun found =>
    if found then
      let coinid := (assetIndex ev.assetid).toNat
      (assetcommandIndexed render (gp.coin coinid) (lps coinid) ev validaddr).bind fun s =>
        ([], Function.update lps coinid s)
    else ([], lps)

/-! ## `DEPOSIT_CONFIRMED` -/

def setPendingAssetxferIndexed (c : Coin) (s : Replica) (cointxid : Text) (vout : Int)
    (nxt64bits nxtTxid assetoshis : BitVec 64) : Indexed (Int × Replica) :=
  (findCoinTxidIndexed c).bind fun _ =>
    match depositOf s cointxid vout with
    | none => ([], (-1, s))
    | some (r, xp) =>
      if xp.isinternal ≠ 0 ∨ nxtTxid = 0#64 then ([], (0, s))
      else
        let settled := settleDeposit c s cointxid vout r xp nxt64bits nxtTxid assetoshis
        if xp.nxt.pending = 0 then (updateBalanceInfoIndexed c settled).bind fun s => ([], (0, s))
        else ([], (0, settled))

def confirmAMIndexed (c : Coin) (s : Replica) (t : Text) (amtxid : Option Text) (nxtAddr : Text) (value : BitVec 64) :
    Indexed Replica :=
  match amtxid with
  | none => ([], s)
  | some amtxid =>
    if (s.tp t).confirmedAMbits = 0#64 then
      let s := s.modifyTp t fun tp => { tp with confirmedAMbits := calcNxt64bits amtxid }
      if c.daemon then ([], s) else updateBalanceInfoIndexed c (depositNXTacct c s nxtAddr value)
    else ([], s)

def decodeDepositconfirmedIndexed (c : Coin) (s : Replica) (argjson : Json) (amtxid : Option Text) :
    Indexed (Option (Int × Replica)) :=
  let cointxid := copyCJSON (getObjectItem argjson "cointxid".toList)
  let nxtAddr := copyCJSON (getObjectItem argjson "NXTaddr".toList)
  let value := getSatoshiObj argjson "value".toList
  let assetoshis := getSatoshiObj argjson "assetoshis".toList
  let vout := int32 (getCJSONInt argjson "vout".toList)
  let t := Hashtable.storeKey maxCointxidLen cointxid
  (confirmAMIndexed c (s.addTp cointxid) t amtxid nxtAddr value).bind fun s =>
    match matchingTransfer s t vout with
    | none => ([], none)
    | some nxtTxid =>
      if copyCJSON (getObjectItem argjson "coin".toList) ≠ [] ∧ cointxid ≠ [] ∧ nxtTxid ≠ 0#64 ∧
          copyCJSON (getObjectItem argjson "coinaddr".toList) ≠ [] ∧ nxtAddr ≠ [] ∧
          0 < value.toInt ∧ 0 < assetoshis.toInt then
        (setPendingAssetxferIndexed c s cointxid vout (calcNxt64bits nxtAddr) nxtTxid assetoshis).bind fun r =>
          ([], some (if r.1 ≠ 0 then c.coinid else -1, r.2))
      else ([], some (-1, s))

def decodeDepositconfirmedJsonIndexed (gp : GatewayInfo) (lps : Replicas) (argjson : Json) (amtxid : Option Text) :
    Indexed (Option (Int × Replicas)) :=
  match argjson with
  | .null => ([], some (-1, lps))
  | argjson =>
    (getReplicatedCoininfo gp (messageCoinid argjson)).bind fun found =>
      -- outside of the array any bytes are taken for a pointer
      if 0 ≤ messageCoinid argjson ∧ messageCoinid argjson < 64 then
        if found then
          let coinid := (messageCoinid argjson).toNat
          (decodeDepositconfirmedIndexed (gp.coin coinid) (lps coinid) argjson amtxid).bind fun r =>
            ([], r.map fun (code, s) => (code, Function.update lps coinid s))
        else ([], some (-1, lps))
      else ([], none)

/-! ## They do what the functions do -/

variable {render : Text → Text} {gp : GatewayInfo} {lps : Replicas} {c : Coin} {s : Replica} {ev : AssetEvent}
  {argjson : Json} {amtxid : Option Text} {validaddr : Bool}

theorem crosschainEventIndexed_snd (json obj : Json) :
    (crosschainEventIndexed c s ev json obj).2 = crosschainEvent c s ev json obj := by
  unfold crosschainEventIndexed crosschainEvent
  by_cases hcoin : convCoinstr (copyCJSON (some obj)) = some c.coinid
  · rw [if_pos hcoin, if_pos hcoin]
    dsimp only
    by_cases hcointxid : copyCJSON (getObjectItem json "cointxid".toList) = []
    · rw [if_pos hcointxid, if_pos hcointxid]
    · rw [if_neg hcointxid, if_neg hcointxid]
      generalize depositOf _ _ _ = slot
      cases slot with
      | some found => rfl
      | none => cases c.daemon <;> rfl
  · rw [if_neg hcoin, if_neg hcoin]

theorem assetcommandIndexed_snd :
    (assetcommandIndexed render c s ev validaddr).2 = assetcommand render c s ev validaddr := by
  unfold assetcommandIndexed assetcommand
  cases cJSONParse render ev.text with
  | none => rfl
  | some json =>
    dsimp only
    cases getObjectItem json "crosschain".toList with
    | none => rfl
    | some obj => exact crosschainEventIndexed_snd json obj

theorem multigatewayAsseteventIndexed_snd :
    (multigatewayAsseteventIndexed render gp lps ev validaddr).2 =
    multigatewayAssetevent render gp lps ev validaddr := by
  unfold multigatewayAsseteventIndexed multigatewayAssetevent getReplicatedCoininfo assetIndex
  cases convAssetid ev.assetid with
  | none => rfl
  | some coinid =>
    simp only [Indexed.bind_snd, Int.toNat_natCast, Int.natCast_nonneg, decide_true, Bool.true_and]
    split
    · rw [Indexed.bind_snd, assetcommandIndexed_snd]
    · rfl

theorem setPendingAssetxferIndexed_snd (cointxid : Text) (vout : Int) (nxt64bits nxtTxid assetoshis : BitVec 64) :
    (setPendingAssetxferIndexed c s cointxid vout nxt64bits nxtTxid assetoshis).2
      = setPendingAssetxfer c s cointxid vout nxt64bits nxtTxid assetoshis := by
  unfold setPendingAssetxferIndexed setPendingAssetxfer
  rw [Indexed.bind_snd]
  cases depositOf s cointxid vout with
  | none => rfl
  | some deposit =>
    dsimp only
    split
    · rfl
    · split
      · rfl
      · rfl

theorem confirmAMIndexed_snd (t nxtAddr : Text) (value : BitVec 64) :
    (confirmAMIndexed c s t amtxid nxtAddr value).2 = confirmAM c s t amtxid nxtAddr value := by
  unfold confirmAMIndexed confirmAM
  cases amtxid with
  | none => rfl
  | some amtxid =>
    dsimp only
    split
    · split
      · rfl
      · rfl
    · rfl

theorem decodeDepositconfirmedIndexed_snd :
    (decodeDepositconfirmedIndexed c s argjson amtxid).2 = decodeDepositconfirmed c s argjson amtxid := by
  unfold decodeDepositconfirmedIndexed decodeDepositconfirmed
  dsimp only
  rw [Indexed.bind_snd, confirmAMIndexed_snd]
  split
  · next hnone =>
    rw [hnone]
    rfl
  · next nxtTxid hsome =>
    rw [hsome, Option.map_some]
    split
    · rw [Indexed.bind_snd, setPendingAssetxferIndexed_snd]
    · rfl

theorem decodeDepositconfirmedJsonIndexed_snd :
    (decodeDepositconfirmedJsonIndexed gp lps argjson amtxid).2 = decodeDepositconfirmedJson gp lps argjson amtxid := by
  unfold decodeDepositconfirmedJsonIndexed decodeDepositconfirmedJson getReplicatedCoininfo messageCoinid
  cases argjson with
  | null => rfl
  | _ =>
    dsimp only
    rw [Indexed.bind_snd]
    split
    · next hrange =>
      rw [decide_eq_true hrange.1, Bool.true_and]
      split
      · rw [Indexed.bind_snd, decodeDepositconfirmedIndexed_snd]
      · rfl
    · rfl

/-! ## One coin is read -/

theorem only_crosschainEventIndexed (json obj : Json) :
    Only c.coinid (crosschainEventIndexed c s ev json obj) := by
  unfold crosschainEventIndexed
  split
  · dsimp only
    split
    · exact Only.nil _ _
    · split
      · exact Only.nil _ _
      · split
        · exact Only.nil _ _
        · exact Only.one _ _
  · exact Only.nil _ _

theorem only_assetcommandIndexed : Only c.coinid (assetcommandIndexed render c s ev validaddr) := by
  unfold assetcommandIndexed
  split
  · exact Only.nil _ _
  · split
    · exact only_crosschainEventIndexed _ _
    · exact Only.nil _ _

theorem only_setPendingAssetxferIndexed (cointxid : Text) (vout : Int) (nxt64bits nxtTxid assetoshis : BitVec 64) :
    Only c.coinid (setPendingAssetxferIndexed c s cointxid vout nxt64bits nxtTxid assetoshis) := by
  unfold setPendingAssetxferIndexed
  refine Only.bind (Only.one _ _) fun _ => ?_
  split
  · exact Only.nil _ _
  · split
    · exact Only.nil _ _
    · dsimp only
      split
      · exact Only.bind (Only.one _ _) fun _ => Only.nil _ _
      · exact Only.nil _ _

theorem only_confirmAMIndexed (t nxtAddr : Text) (value : BitVec 64) :
    Only c.coinid (confirmAMIndexed c s t amtxid nxtAddr value) := by
  unfold confirmAMIndexed
  split
  · exact Only.nil _ _
  · split
    · dsimp only
      split
      · exact Only.nil _ _
      · exact Only.one _ _
    · exact Only.nil _ _

theorem only_decodeDepositconfirmedIndexed : Only c.coinid (decodeDepositconfirmedIndexed c s argjson amtxid) := by
  unfold decodeDepositconfirmedIndexed
  refine Only.bind (only_confirmAMIndexed _ _ _) fun s => ?_
  split
  · exact Only.nil _ _
  · split
    · exact Only.bind (only_setPendingAssetxferIndexed _ _ _ _ _) fun _ => Only.nil _ _
    · exact Only.nil _ _

theorem convAssetid_lt {assetid : Text} {coinid : Nat} (h : convAssetid assetid = some coinid) :
    coinid < 64 ∧ assetidStr coinid = assetid := by
  have hmem := List.mem_of_find?_eq_some h
  have hid := List.find?_some h
  exact ⟨List.mem_range.mp hmem, beq_iff_eq.mp hid⟩

theorem only_multigatewayAsseteventIndexed :
    Only (assetIndex ev.assetid) (multigatewayAsseteventIndexed render gp lps ev validaddr) := by
  unfold multigatewayAsseteventIndexed assetIndex
  cases convAssetid ev.assetid with
  | none => exact Only.one _ _
  | some coinid =>
    refine Only.bind (Only.one _ _) fun found => ?_
    cases found with
    | false => exact Only.nil _ _
    | true => exact Only.bind only_assetcommandIndexed fun _ => Only.nil _ _

/-- The whole message reads at the coin that it names. -/
theorem only_decodeDepositconfirmedJsonIndexed :
    Only (messageCoinid argjson) (decodeDepositconfirmedJsonIndexed gp lps argjson amtxid) := by
  unfold decodeDepositconfirmedJsonIndexed
  split
  · exact Only.nil _ _
  · refine Only.bind (Only.one _ _) fun found => ?_
    split
    · next hrange =>
      split
      · refine Only.bind ?_ fun _ => Only.nil _ _
        have hcoin : Only (gp.coin (messageCoinid argjson).toNat).coinid (decodeDepositconfirmedIndexed
            (gp.coin (messageCoinid argjson).toNat) (lps (messageCoinid argjson).toNat) argjson amtxid) :=
          only_decodeDepositconfirmedIndexed
        rwa [show ((gp.coin (messageCoinid argjson).toNat).coinid : Int) = messageCoinid argjson from
          Int.toNat_of_nonneg hrange.1] at hcoin
      · exact Only.nil _ _
    · exact Only.nil _ _

/-! ## Which reads are within the array -/

/-- An index of `replicants`. -/
def Within (i : Int) : Prop := 0 ≤ i ∧ i < 64

theorem Indexed.Only.within_iff {α : Type} {n : Int} {x : Indexed α} (h : Only n x) (hread : n ∈ x.1) :
    (∀ i ∈ x.1, Within i) ↔ Within n := by
  constructor
  · intro hall
    exact hall n hread
  · intro hn i hi
    rw [h i hi]
    exact hn

/-- The ids that `assetid_str` gives to some number: those of five coins, an empty one and the marker `0`. -/
def IsAssetid (assetid : Text) : Prop := ∃ coinid < 64, assetidStr (coinid : Nat) = assetid

theorem within_assetIndex_iff (assetid : Text) : Within (assetIndex assetid) ↔ IsAssetid assetid := by
  unfold assetIndex
  cases hconv : convAssetid assetid with
  | none =>
    refine iff_of_false (fun h => absurd h.1 (by decide)) ?_
    rintro ⟨coinid, hlt, hid⟩
    have hmiss := List.find?_eq_none.mp hconv coinid (List.mem_range.mpr hlt)
    exact hmiss (beq_iff_eq.mpr hid)
  | some coinid =>
    have hfound := convAssetid_lt hconv
    exact iff_of_true ⟨Int.natCast_nonneg _, Int.ofNat_lt.mpr hfound.1⟩ ⟨coinid, hfound⟩

/-- The asset id is that of no coin that the node keeps. -/
def GatewayInfo.Foreign (gp : GatewayInfo) (assetid : Text) : Prop :=
  ∀ coinid, gp.keeps coinid → assetidStr (coinid : Nat) ≠ assetid

theorem multigatewayAssetevent_foreign (h : gp.Foreign ev.assetid) :
    multigatewayAssetevent render gp lps ev validaddr = lps := by
  unfold multigatewayAssetevent
  cases hconv : convAssetid ev.assetid with
  | none => rfl
  | some coinid =>
    dsimp only
    split
    · next hkeeps => exact absurd (convAssetid_lt hconv).2 (h coinid hkeeps)
    · rfl

theorem assetevent_within_iff : (∀ i ∈ (multigatewayAsseteventIndexed render gp lps ev validaddr).1, Within i)
    ↔ IsAssetid ev.assetid := by
  rw [← within_assetIndex_iff]
  exact only_multigatewayAsseteventIndexed.within_iff (List.mem_cons_self ..)

theorem depositconfirmed_within_iff :
    (∀ i ∈ (decodeDepositconfirmedJsonIndexed gp lps argjson amtxid).1, Within i)
      ↔ argjson = .null ∨ Within (messageCoinid argjson) := by
  by_cases hnull : argjson = .null
  · subst hnull
    exact iff_of_true (List.forall_mem_nil _) (.inl rfl)
  · rw [or_iff_right hnull]
    refine only_decodeDepositconfirmedJsonIndexed.within_iff ?_
    unfold decodeDepositconfirmedJsonIndexed
    split
    · exact absurd rfl hnull
    · exact List.mem_cons_self ..

/-- **Which events and messages read `replicants` within its 64 pointers.** An asset of no coin changes nothing, and is
read within the array when `assetid_str` gives its id to some number; a message is when it names a number below 64. -/
theorem foreign_assets_iff (render : Text → Text) (gp : GatewayInfo) (lps : Replicas) :
    (∀ ev validaddr,
      ((∀ i ∈ (multigatewayAsseteventIndexed render gp lps ev validaddr).1, Within i) ∧
        (gp.Foreign ev.assetid → (multigatewayAsseteventIndexed render gp lps ev validaddr).2 = lps))
      ↔ IsAssetid ev.assetid) ∧
    (∀ argjson amtxid,
      (∀ i ∈ (decodeDepositconfirmedJsonIndexed gp lps argjson amtxid).1, Within i)
      ↔ argjson = .null ∨ Within (messageCoinid argjson)) := by
  refine ⟨fun ev validaddr => ?_, fun argjson amtxid => depositconfirmed_within_iff⟩
  rw [assetevent_within_iff, multigatewayAsseteventIndexed_snd]
  exact and_iff_left fun hforeign => multigatewayAssetevent_foreign hforeign

/-- A transfer of an asset that is not one of the gateway's. -/
def foreignTransfer : AssetEvent where
  sender := "1".toList
  receiver := "2".toList
  txid := "3".toList
  assetid := "77".toList
  assetoshis := 1#64
  comment := none
  positive := toInt_one_pos
  txid_ne := by decide

/-- The asset `77` is looked up at `replicants[-1]`. -/
theorem not_forall_replicants_within : ¬ ∀ (render : Text → Text) (gp : GatewayInfo) (lps : Replicas),
    (∀ ev validaddr,
      (∀ i ∈ (multigatewayAsseteventIndexed render gp lps ev validaddr).1, Within i) ∧
        (gp.Foreign ev.assetid → (multigatewayAsseteventIndexed render gp lps ev validaddr).2 = lps)) ∧
    (∀ argjson amtxid, ∀ i ∈ (decodeDepositconfirmedJsonIndexed gp lps argjson amtxid).1, Within i) := by
  intro h
  have hread : (-1 : Int) ∈ (multigatewayAsseteventIndexed id (smallGateway 0) init foreignTransfer Bool.false).1 := by
    decide +kernel
  exact absurd (((h id (smallGateway 0) init).1 foreignTransfer Bool.false).1 _ hread).1 (by decide)

end NXTServices.Gateway
