import NXTServices.Hashtable
import NXTServices.Json
import NXTServices.Ledger
import NXTServices.Lib.Arena
import NXTServices.Queue

/-!
# The state of a gateway, from `multigateway/multistructs.h`, `multifind.h` and `balances.h`

* `coinidStr`, `assetidStr`, `convCoinstr`, `convAssetid` : the coins and their assets;
* `BalanceInfo`, `updateBalanceInfo`, `balanceVerification` : the totals of a coin and of an account;
* `CoinTxid`, `CoinValue`, `CrosschainInfo` : a coin transaction, an output, and its deposit; a
  `CrosschainInfo` lives in the `CoinValue` it was made for, which is its `parent`;
* `Coin` : what the handlers of a coin read and never write;
* `Replica` : what they write: `struct replicated_coininfo`, the coin's part of the accounts, and the
  calls made to the world outside.

Left out: the unspent statistics, `NXTRTflag` (nothing reads it in the debug build), the message
texts and the fields that only other programs read.
-/

namespace NXTServices.Gateway
open Queue

/-! ## Coins, assets and gateway accounts -/

def numGateways : Nat := 3
def maxCointxidLen : Nat := 68
def maxNxtaddrLen : Nat := 24
def maxCoinaddrLen : Nat := 64
def minNxtconfirms : Int := 10

def nxtIssuerAcct : Text := "18232225178877143084".toList
def nxtAcctA : Text := "423766016895692955".toList
def nxtAcctB : Text := "12240549928875772593".toList
def nxtAcctC : Text := "8279528579993996036".toList

def isGatewayAddr (addr : Text) : Bool :=
  addr == nxtIssuerAcct || addr == nxtAcctA || addr == nxtAcctB || addr == nxtAcctC

def illegalCoin : Text := "ERR".toList

def coinidStr (coinid : Int) : Text :=
  match coinid with
  | 1 => "BTC".toList
  | 2 => "LTC".toList
  | 3 => "CGB".toList
  | 4 => "DOGE".toList
  | 5 => "DRK".toList
  | 7 => "BC".toList
  | 63 => "USD".toList
  | 62 => "CNY".toList
  | _ => illegalCoin

def assetidStr (coinid : Int) : Text :=
  match coinid with
  | 1 => "10235881003283394223".toList
  | 2 => "18237314836568240804".toList
  | 3 => "17262323417894903558".toList
  | 4 => "9035587034804564125".toList
  | 5 => "13015637232441376361".toList
  | 7 => []
  | _ => "0".toList

/-- `none` is `-1`. -/
def convCoinstr (name : Text) : Option Nat := (List.range 64).find? fun i => coinidStr i == name

def convAssetid (assetid : Text) : Option Nat := (List.range 64).find? fun i => assetidStr i == assetid

/-- A cast to `int32_t`. -/
def int32 (x : Int) : Int := x.bmod (2 ^ 32)

/-- The copy of a text into a buffer of `len` bytes. -/
def safecopy (src : Text) (len : Nat) : Text := src.take len

/-! ## Totals -/

structure BalanceInfo where
  deposits : BitVec 64 := 0#64
  transfers : BitVec 64 := 0#64
  withdraws : BitVec 64 := 0#64
  moneysends : BitVec 64 := 0#64
  remainingTransfers : BitVec 64 := 0#64
  remainingMoneysends : BitVec 64 := 0#64
  balance : BitVec 64 := 0#64
deriving DecidableEq

/-- The `type` of an update, from `0` to `3`. -/
inductive BalanceType where
  | deposit
  | depositTransfer
  | withdrawTransfer
  | moneysent
deriving DecidableEq

def recalcBalanceInfo (bp : BalanceInfo) : BalanceInfo :=
  { bp with
    remainingTransfers := bp.deposits - bp.transfers
    remainingMoneysends := bp.withdraws - bp.moneysends
    balance := bp.deposits - bp.withdraws }

/-- `_update_balance_info`. -/
def BalanceInfo.update (bp : BalanceInfo) (type : BalanceType) (value : BitVec 64) : BalanceInfo :=
  recalcBalanceInfo <| match type with
    | .deposit => { bp with deposits := bp.deposits + value }
    | .depositTransfer => { bp with transfers := bp.transfers + value }
    | .withdrawTransfer => { bp with withdraws := bp.withdraws + value }
    | .moneysent => { bp with moneysends := bp.moneysends + value }

/-! ## Coin transactions, outputs and deposits -/

structure PubkeyInfo where
  pubkey : Text := []
  coinaddr : Text := []
  server : Text := []
deriving DecidableEq

structure MultisigAddr where
  nxtAddr : Text
  multisigaddr : Text := []
  redeemScript : Text := []
  pubkeys : List PubkeyInfo := []
  m : Nat
  n : Nat
  coinid : Int
deriving DecidableEq

structure CrosschainNXTinfo where
  assetTxid : BitVec 64 := 0#64
  confirmedAMbits : BitVec 64 := 0#64
  confirmed : Nat := 0
  pending : Nat := 0
deriving DecidableEq

structure CrosschainInfo where
  nxt64bits : BitVec 64 := 0#64
  value : BitVec 64 := 0#64
  assetoshis : BitVec 64 := 0#64
  msig : Option MultisigAddr := none
  nxtXfermask : Nat := 0
  coinConfirmed : Nat := 0
  isinternal : Nat := 0
  nxt : CrosschainNXTinfo := {}
deriving DecidableEq

/-- `parent`, `spent` and `pendingspend` are keys of the table of transactions. -/
structure CoinValue where
  value : BitVec 64 := 0#64
  xp : Option CrosschainInfo := none
  parent : Text := []
  parentVout : Nat := 0
  spent : Option Text := none
  spentVin : Nat := 0
  pendingspend : Option Text := none
  pendingSpendvin : Nat := 0
  script : Option Text := none
  isconfirmed : Nat := 0
  iscoinbase : Nat := 0
  isinternal : Nat := 0
  coinaddr : Text := []
deriving DecidableEq

/-- The slots of `vins` and `vouts` hold addresses of outputs; `none` is a null array. -/
structure CoinTxid where
  confirmedAMbits : BitVec 64 := 0#64
  nxtXferbits : BitVec 64 := 0#64
  numvins : Nat := 0
  numvouts : Nat := 0
  hasinternal : Nat := 0
  height : Int := 0
  vins : Option (List (Option Nat)) := none
  vouts : Option (List (Option Nat)) := none
deriving DecidableEq

/-- `tp->vouts[i]`, a slot outside of the array being as good as null. -/
def CoinTxid.slot (tp : CoinTxid) (i : Nat) : Option Nat := (tp.vouts.getD [])[i]?.join

/-- The record of a redemption; its key is `redeemtxid`. -/
structure WithdrawInfo where
  coinid : Nat := 0
  amount : BitVec 64 := 0#64
  nxtAddr : Text := []
  withdrawaddr : Text := []
  comment : Text := []
  twofactor : Nat := 0
deriving DecidableEq

structure CoinAcct where
  funds : BalanceInfo := {}
  msigs : List MultisigAddr := []
  withdrawaddr : Text := []
deriving DecidableEq

/-! ## The state of a coin -/

/-- What the handlers of a coin read and never write. `gatewayid` is `-1` on a node that is no gateway. -/
structure Coin where
  coinid : Nat
  gatewayid : Int
  daemon : Bool
  internalmarker : Text
  minConfirms : Int := 3

/-- The coins of `coinid_str`; the others have no accounts. -/
def Coin.legal (c : Coin) : Bool := coinidStr c.coinid != illegalCoin

/-- The calls whose order and number the laws of the gateway are about. -/
inductive Call where
  /-- `issue_transferAsset` for an output, with its answer. -/
  | issueTransferAsset (cointxid : Text) (vout : Nat) (nxtAddr assetid : Text)
      (assetoshis result : BitVec 64)
  /-- `deposit_transfer_NXTacct` for an output. -/
  | depositTransfer (cointxid : Text) (vout : Int)
  /-- The enqueuing of a redemption. -/
  | withdrawreq (wp : WithdrawInfo)
deriving DecidableEq

structure PingpongQueue (α : Type) where
  zero : QueueT α := {}
  one : QueueT α := {}

/-- `struct replicated_coininfo`, with the coin's part of every account. `withdrawreqs` holds keys of
`redeemtxids`, and `xps` the outputs whose deposits it lists. -/
structure Replica where
  funds : BalanceInfo := {}
  coinTxids : Table CoinTxid := Table.empty
  redeemtxids : Table WithdrawInfo := Table.empty
  values : Arena CoinValue := { cell := fun _ => {} }
  xps : List Nat := []
  msigs : List MultisigAddr := []
  withdrawreqs : PingpongQueue Text := {}
  retrydepositconfirmed : PingpongQueue Json := {}
  accts : Text → CoinAcct := fun _ => {}
  calls : List Call := []

namespace Replica
variable (s : Replica)

/-- `*tp`. -/
def tp (t : Text) : CoinTxid := (s.coinTxids t).getD {}

/-- `*vp`. -/
def vp (r : Nat) : CoinValue := s.values.cell r

@[simps] def modifyTp (t : Text) (f : CoinTxid → CoinTxid) : Replica :=
  { s with coinTxids := s.coinTxids.modify t f }

@[simps] def modifyVp (r : Nat) (f : CoinValue → CoinValue) : Replica := { s with values := s.values.modify r f }

@[simps] def allocVp (vp : CoinValue) : Replica := { s with values := s.values.alloc vp }

@[simps] def log (call : Call) : Replica := { s with calls := s.calls ++ [call] }

/-- `MTadd_hashtable` on the table of coin transactions. -/
@[simps] def addTp (t : Text) : Replica := { s with coinTxids := (s.coinTxids.add maxCointxidLen t {}).table }

end Replica

/-- The key of an account. -/
def acctKey (nxtAddr : Text) : Text := Hashtable.storeKey maxNxtaddrLen nxtAddr

/-- The account always exists, since it is created on the first call. -/
def getCoinAcct (c : Coin) (s : Replica) (nxtAddr : Text) : Option CoinAcct :=
  if c.legal then some (s.accts (acctKey nxtAddr)) else none

def Replica.modifyAcct (s : Replica) (nxtAddr : Text) (f : CoinAcct → CoinAcct) : Replica :=
  { s with accts := Function.update s.accts (acctKey nxtAddr) (f (s.accts (acctKey nxtAddr))) }

def searchMultisigAddrs (s : Replica) (coinaddr : Text) : Option MultisigAddr :=
  s.msigs.find? fun msig => msig.multisigaddr == coinaddr

@[simps] def updateBalanceInfo (c : Coin) (s : Replica) (type : BalanceType) (nxtAddr : Text)
    (value : BitVec 64) : Replica :=
  { s with
    funds := s.funds.update type value
    accts :=
      if c.legal then
        (s.modifyAcct nxtAddr fun acct => { acct with funds := acct.funds.update type value }).accts
      else s.accts }

def depositNXTacct (c : Coin) (s : Replica) (nxtAddr : Text) (value : BitVec 64) : Replica :=
  updateBalanceInfo c s .deposit nxtAddr value

/-- The call also says which output it is made for. -/
def depositTransferNXTacct (c : Coin) (s : Replica) (nxtAddr : Text) (value : BitVec 64)
    (cointxid : Text) (vout : Int) : Replica :=
  (updateBalanceInfo c s .depositTransfer nxtAddr value).log (.depositTransfer cointxid vout)

/-- `balance_verification`; `mode` is `false` for `0`. -/
def balanceVerification (c : Coin) (s : Replica) (mode : Bool) (nxtAddr : Text) (value : BitVec 64) : Int :=
  let refused (bp : BalanceInfo) : Bool :=
    if mode then bp.remainingMoneysends.slt value || bp.balance.slt value else bp.remainingTransfers.slt value
  if refused s.funds then 0
  else
    match getCoinAcct c s nxtAddr with
    | none => -1
    | some acct => if refused acct.funds then 0 else 1

end NXTServices.Gateway
