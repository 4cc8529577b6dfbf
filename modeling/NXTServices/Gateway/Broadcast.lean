import NXTServices.Gateway.Replicated
import NXTServices.Gateway.Funds
import NXTServices.Reprint

/-!
# The broadcast of a deposit: `broadcast_depositconfirmedAM` and `create_depositconfirmed_jsontxt`

A node without the daemon of a coin hears of its deposits by `DEPOSIT_CONFIRMED` messages.

* `createDepositconfirmedJsontxt`, `broadcastDepositconfirmedAM` : the text of the message;
* `Deposit`, `Deposit.Told` : a confirmed deposit, and its message as a node gets it;
* `Told.readConfirmation` : a node reads what the gateway wrote;
* `run_told` : the updates of a run of messages;
* `watchers_agree` : **a node without the daemon has the deposits of the nodes with it**, in whichever order and
  however often the messages come.

The message is carried by the NXT chain, whose calls are not in the repository; the text is handed on as it is.
-/

namespace NXTServices.Gateway
open Json hiding null true false
open Tally
open Torrent (decimal)

/-! ## Writing -/

def depositconfirmedFields (coinid : Nat) (coinaddr cointxid : Text) (vout : Nat) (value assetoshis : BitVec 64)
    (nxtAddr : Text) : List (String × Option Json) :=
  [ ("coinid", some (int32Json coinid)),
    ("vout", some (int32Json vout)),
    ("coinaddr", some (string coinaddr)),
    ("coin", some (string (coinidStr coinid))),
    ("cointxid", some (string cointxid)),
    ("NXTaddr", some (string nxtAddr)),
    ("assetoshis", some (satoshisJson assetoshis)),
    ("value", some (satoshisJson value)) ]

def createDepositconfirmedJsontxt (gatewayid : Int) (coinid : Nat) (coinaddr cointxid : Text) (vout : Nat)
    (value assetoshis : BitVec 64) (nxtAddr : Text) : Option Text :=
  if gatewayid < 0 then none
  else some (cJSONPrint (objectOf (depositconfirmedFields coinid coinaddr cointxid vout value assetoshis nxtAddr)))

/-- The text that is submitted for the deposit `xp` of the output `vp`, which has a transaction. -/
def broadcastDepositconfirmedAM (gatewayid : Int) (coinid : Nat) (vp : CoinValue) (xp : CrosschainInfo)
    (nxtAddr : Text) :
    Option Text :=
  createDepositconfirmedJsontxt gatewayid coinid vp.coinaddr vp.parent vp.parentVout xp.value xp.assetoshis nxtAddr

/-- A confirmed deposit of a coin, its output at `r`, with the message that one of the gateways submits for it. -/
structure Deposit where
  coinid : Nat
  r : Nat
  vp : CoinValue
  xp : CrosschainInfo
  sender : Text
  amtxid : Text

/-- Every account is the share of one gateway, which submits the message. -/
def Deposit.gatewayid (d : Deposit) : Int := (d.xp.nxt64bits.toNat % numGateways : Int)

def Deposit.text (d : Deposit) : Option Text :=
  broadcastDepositconfirmedAM d.gatewayid d.coinid d.vp d.xp (xpNXTaddr d.xp)

/-- The message of the deposit, as a node gets it. -/
def Deposit.Told (render : Text → Text) (d : Deposit) (e : Step) : Prop :=
  ∃ text argjson, d.text = some text ∧ cJSONParse render text = some argjson ∧
  e = .depositConfirmed d.sender d.amtxid argjson

/-- The texts are printed as they are, and the numbers are those of an amount and of an output. -/
structure Deposit.Plain (d : Deposit) : Prop where
  named : coinidStr d.coinid ≠ illegalCoin
  coinaddr : Unescaped d.vp.coinaddr
  cointxid : Unescaped d.vp.parent
  cointxid_ne : d.vp.parent ≠ []
  cointxid_short : d.vp.parent.length < maxCointxidLen
  vout : d.vp.parentVout < 2 ^ 31
  nxtAddr : Unescaped (xpNXTaddr d.xp)
  nxtAddr_short : (xpNXTaddr d.xp).length < 64
  value : 0 ≤ d.xp.value.toInt
  assetoshis : 0 ≤ d.xp.assetoshis.toInt
  sender : isGatewayAddr d.sender
  amtxid : calcNxt64bits d.amtxid ≠ 0#64

/-- What is read of the message. -/
def Deposit.confirmation (d : Deposit) : Confirmation where
  coin := coinidStr d.coinid
  cointxid := d.vp.parent
  coinaddr := d.vp.coinaddr
  nxtAddr := xpNXTaddr d.xp
  value := d.xp.value
  assetoshis := d.xp.assetoshis
  vout := d.vp.parentVout

/-- The update of the deposit. -/
def depositPosting (m : Confirmation) : Posting := ⟨acctKey m.nxtAddr, .deposit, m.value⟩

/-! ## The message is read back -/

theorem zero_not_mem_of_unescaped {str : Text} (h : Unescaped str) : Char.ofNat 0 ∉ str := fun hmem =>
  absurd (h _ hmem).1 (by decide)

theorem readable_objectOf {render : Text → Text} {fields : List (String × Option Json)}
    (h : ∀ f ∈ fields, Char.ofNat 0 ∉ f.1.toList ∧ ∀ item ∈ f.2, Readable render item) :
    Readable render (objectOf fields) := by
  show ReadableObject render (fields.filterMap _)
  induction fields with
  | nil => trivial
  | cons f fields ih =>
    obtain ⟨⟨hname, hitem⟩, hrest⟩ := List.forall_mem_cons.mp h
    obtain ⟨name, item⟩ := f
    cases item with
    | none => exact ih hrest
    | some item => exact ⟨hname, hitem item rfl, ih hrest⟩

section Reading
variable {render : Text → Text} {d : Deposit} {e : Step}

theorem readable_int32Json (hrender : PrintsInt32 render) (n : Int) : Readable render (int32Json n) := by
  obtain ⟨hlow, hhigh⟩ := int32_bounds n
  exact settled_decimal (hrender _ hlow hhigh)

theorem readable_satoshisJson (satoshis : BitVec 64) : Readable render (satoshisJson satoshis) :=
  zero_not_mem_of_unescaped (bare_decimal satoshis.toInt).unescaped

theorem unescaped_coinidStr (coinid : Nat) : Unescaped (coinidStr coinid) := by
  unfold coinidStr
  split <;> decide

/-- The fields of the message of a deposit. -/
def Deposit.fields (d : Deposit) : List (String × Option Json) :=
  depositconfirmedFields d.coinid d.vp.coinaddr d.vp.parent d.vp.parentVout d.xp.value d.xp.assetoshis (xpNXTaddr d.xp)

theorem Deposit.Plain.readable (hd : d.Plain) (hrender : PrintsInt32 render) : Readable render (objectOf d.fields) := by
  apply readable_objectOf
  simp only [Deposit.fields, depositconfirmedFields, List.forall_mem_cons, Option.mem_some_iff, forall_eq']
  refine ⟨⟨by decide, readable_int32Json hrender _⟩, ⟨by decide, readable_int32Json hrender _⟩,
    ⟨by decide, zero_not_mem_of_unescaped hd.coinaddr⟩,
    ⟨by decide, zero_not_mem_of_unescaped (unescaped_coinidStr d.coinid)⟩,
    ⟨by decide, zero_not_mem_of_unescaped hd.cointxid⟩, ⟨by decide, zero_not_mem_of_unescaped hd.nxtAddr⟩,
    ⟨by decide, readable_satoshisJson _⟩, ⟨by decide, readable_satoshisJson _⟩, List.forall_mem_nil _⟩

theorem Deposit.fields_nodup (d : Deposit) : (d.fields.map fun f => f.1.toList.map tolower).Nodup := by
  show (["coinid", "vout", "coinaddr", "coin", "cointxid", "NXTaddr", "assetoshis", "value"].map
    fun name => name.toList.map tolower).Nodup
  decide

theorem getObjectItem_fields {name : String} {item : Option Json} (h : (name, item) ∈ d.fields) :
    getObjectItem (objectOf d.fields) name.toList = item := getObjectItem_objectOf d.fields_nodup h

theorem Deposit.text_eq (d : Deposit) : d.text = some (cJSONPrint (objectOf d.fields)) := by
  have hshare : ¬ d.gatewayid < 0 := by
    unfold Deposit.gatewayid
    omega
  unfold Deposit.text broadcastDepositconfirmedAM createDepositconfirmedJsontxt
  rw [if_neg hshare]
  rfl

theorem Deposit.Plain.told_iff (hd : d.Plain) (hrender : PrintsInt32 render) :
    d.Told render e ↔ e = .depositConfirmed d.sender d.amtxid (objectOf d.fields) := by
  have hparse := cJSONParse_cJSONPrint (objectOf d.fields) (hd.readable hrender)
  constructor
  · rintro ⟨text, argjson, htext, hread, rfl⟩
    obtain rfl := Option.some.inj (d.text_eq.symm.trans htext)
    obtain rfl := Option.some.inj (hparse.symm.trans hread)
    rfl
  · rintro rfl
    exact ⟨_, _, d.text_eq, hparse, rfl⟩

theorem copyCJSON_unescaped {str : Text} (h : Unescaped str) : copyCJSON (some (string str)) = str := by
  rw [copyCJSON_string, h.flatMap_escapeChar]

theorem getCJSONInt_int32Json {json : Json} {field : Text} {n : Nat} (hn : n < 2 ^ 31)
    (hitem : getObjectItem json field = some (int32Json n)) : int32 (getCJSONInt json field) = n := by
  have hint : int32 n = n := int32_eq (by omega) (by omega)
  have hread : getCJSONInt json field = n := by
    apply getCJSONInt_of_decimal _ (by omega) (by omega)
    rw [hitem, int32Json, hint, copyCJSON_decimal]
  rw [hread, hint]

theorem getSatoshiObj_of_nonneg {json : Json} {field : Text} {satoshis : BitVec 64} (h : 0 ≤ satoshis.toInt)
    (hitem : getObjectItem json field = some (satoshisJson satoshis)) : getSatoshiObj json field = satoshis := by
  rw [getSatoshiObj_satoshisJson hitem]
  exact (satoshiLoop_eq_iff satoshis).mpr (.inl h)

/-- **A node reads of the message what the gateway wrote.** -/
theorem Deposit.Plain.readConfirmation (hd : d.Plain) :
    Gateway.readConfirmation (objectOf d.fields) = d.confirmation := by
  have hcoin : getObjectItem (objectOf d.fields) "coin".toList = _ :=
    getObjectItem_fields (.tail _ (.tail _ (.tail _ (.head _))))
  have hcointxid : getObjectItem (objectOf d.fields) "cointxid".toList = _ :=
    getObjectItem_fields (.tail _ (.tail _ (.tail _ (.tail _ (.head _)))))
  have hcoinaddr : getObjectItem (objectOf d.fields) "coinaddr".toList = _ :=
    getObjectItem_fields (.tail _ (.tail _ (.head _)))
  have hnxtAddr : getObjectItem (objectOf d.fields) "NXTaddr".toList = _ :=
    getObjectItem_fields (.tail _ (.tail _ (.tail _ (.tail _ (.tail _ (.head _))))))
  have hassetoshis : getSatoshiObj (objectOf d.fields) "assetoshis".toList = d.xp.assetoshis :=
    getSatoshiObj_of_nonneg hd.assetoshis
      (getObjectItem_fields (.tail _ (.tail _ (.tail _ (.tail _ (.tail _ (.tail _ (.head _))))))))
  have hvalue : getSatoshiObj (objectOf d.fields) "value".toList = d.xp.value :=
    getSatoshiObj_of_nonneg hd.value
      (getObjectItem_fields (.tail _ (.tail _ (.tail _ (.tail _ (.tail _ (.tail _ (.tail _ (.head _)))))))))
  have hvout : int32 (getCJSONInt (objectOf d.fields) "vout".toList) = d.vp.parentVout :=
    getCJSONInt_int32Json hd.vout (getObjectItem_fields (.tail _ (.head _)))
  unfold Gateway.readConfirmation Deposit.confirmation
  rw [hcoin, hcointxid, hcoinaddr, hnxtAddr, copyCJSON_unescaped (unescaped_coinidStr d.coinid),
    copyCJSON_unescaped hd.cointxid, copyCJSON_unescaped hd.coinaddr, copyCJSON_unescaped hd.nxtAddr, hassetoshis,
    hvalue, hvout]

theorem Deposit.Plain.coinid_lt (hd : d.Plain) : d.coinid < 64 := by
  have hall : ∀ k ∈ namedCoins, k < 64 := by decide
  exact hall _ (mem_namedCoins hd.named)

theorem Deposit.Plain.messageCoinid (hd : d.Plain) : Gateway.messageCoinid (objectOf d.fields) = d.coinid := by
  have hlt := hd.coinid_lt
  exact getCJSONInt_int32Json (by omega) (getObjectItem_fields (.head _))

theorem Deposit.Plain.key (hd : d.Plain) : d.confirmation.key = d.vp.parent :=
  if_neg fun h => h.elim hd.cointxid_ne (Nat.not_le_of_lt hd.cointxid_short)

end Reading

/-! ## A run of messages -/

/-- No output of any coin is known. -/
def Blank (lps : Replicas) : Prop := ∀ k t, ((lps k).tp t).vouts = none

/-- The deposits of a coin, as a node with its daemon lists them. -/
def listed (c : Coin) (ds : List Deposit) : Replica :=
  ds.foldl (fun s d => (addConfirmedDeposit c s d.vp.parent d.r d.xp (calcNxt64bits d.amtxid)).1) {}

theorem listed_posted {c : Coin} (ds : List Deposit) :
    Posted c (ds.map fun d => depositPosting d.confirmation) {} (listed c ds) := by
  have hfold (s : Replica) : Posted c (ds.map fun d => depositPosting d.confirmation) s
      (ds.foldl (fun s d => (addConfirmedDeposit c s d.vp.parent d.r d.xp (calcNxt64bits d.amtxid)).1) s) := by
    induction ds generalizing s with
    | nil => exact .of_eq rfl rfl
    | cons d ds ih =>
      have hone : Posted c [depositPosting d.confirmation] { s with xps := s.xps ++ [d.r] }
        (addConfirmedDeposit c s d.vp.parent d.r d.xp (calcNxt64bits d.amtxid)).1 := .update .deposit _ _
      have hstep : Posted c [depositPosting d.confirmation] s
          (addConfirmedDeposit c s d.vp.parent d.r d.xp (calcNxt64bits d.amtxid)).1 := ⟨hone.funds, hone.accts⟩
      exact hstep.trans (ih _)
  exact hfold {}

section Runs
variable {render : Text → Text} {satoshis : Text → BitVec 64} {gp : GatewayInfo} {lps lps' : Replicas} {k : Nat}
  {ds sent : List Deposit} {d : Deposit} {e : Step} {es : List Step}

theorem Blank.matchingTransfer (h : Blank lps) (t : Text) (vout : Int) :
    Gateway.matchingTransfer (lps k) t vout = some 0#64 := by
  unfold Gateway.matchingTransfer
  rw [h]

theorem decodeDepositconfirmedJson_objectOf (fields : List (String × Option Json)) (amtxid : Option Text) :
    decodeDepositconfirmedJson gp lps (objectOf fields) amtxid =
      if 0 ≤ messageCoinid (objectOf fields) ∧ messageCoinid (objectOf fields) < 64 then
        if gp.keeps (messageCoinid (objectOf fields)).toNat then
          (decodeDepositconfirmed (gp.coin (messageCoinid (objectOf fields)).toNat)
            (lps (messageCoinid (objectOf fields)).toNat) (objectOf fields) amtxid).map
              fun (code, s) => (code, Function.update lps (messageCoinid (objectOf fields)).toNat s)
        else some (-1, lps)
      else none := rfl

variable (render satoshis gp) in
/-- A node takes any message when it knows of no output. -/
theorem Blank.step (h : Blank lps) (hd : d.Plain) :
    ∃ lps', step render satoshis gp lps (.depositConfirmed d.sender d.amtxid (objectOf d.fields)) = some lps' ∧
      Blank lps' := by
  have hlt := hd.coinid_lt
  simp only [Gateway.step, if_pos hd.sender]
  rw [decodeDepositconfirmedJson_objectOf, hd.messageCoinid, if_pos (by omega), Int.toNat_natCast]
  by_cases hkeeps : gp.keeps d.coinid
  · have hsame := confirmAM_outputs (c := gp.coin d.coinid) (s := lps d.coinid)
      (Gateway.readConfirmation (objectOf d.fields)).cointxid (Gateway.readConfirmation (objectOf d.fields)).key
      (some d.amtxid) (Gateway.readConfirmation (objectOf d.fields)).nxtAddr
      (Gateway.readConfirmation (objectOf d.fields)).value
    rw [if_pos hkeeps, decodeDepositconfirmed_untransferred rfl
      ((hsame.matchingTransfer _ _).trans (h.matchingTransfer _ _))]
    refine ⟨_, rfl, fun k' t => ?_⟩
    by_cases hk : k' = d.coinid
    · subst hk
      show ((Function.update lps d.coinid _ d.coinid).tp t).vouts = none
      rw [Function.update_self, hsame.vouts]
      exact h _ t
    · show ((Function.update lps d.coinid _ k').tp t).vouts = none
      rw [Function.update_of_ne hk]
      exact h k' t
  · rw [if_neg hkeeps]
    exact ⟨lps, rfl, h⟩

variable (satoshis gp) in
theorem Blank.run (h : Blank lps) (hrender : PrintsInt32 render) (hsent : ∀ d ∈ sent, d.Plain)
    (hes : List.Forall₂ (Deposit.Told render) sent es) :
    ∃ lps', Run.run (Gateway.step render satoshis gp) lps es = some lps' := by
  induction hes generalizing lps with
  | nil => exact ⟨lps, rfl⟩
  | cons htold _ ih =>
    obtain ⟨hd, hsent⟩ := List.forall_mem_cons.mp hsent
    obtain ⟨mid, hmid, hblank⟩ := h.step render satoshis gp hd
    obtain ⟨lps', hrest⟩ := ih hblank hsent
    obtain rfl := (hd.told_iff hrender).mp htold
    exact ⟨lps', by rw [Run.run_cons, hmid]; exact hrest⟩

/-- The messages of a coin in a list of deposits. -/
def confirmationsOf (k : Nat) (ds : List Deposit) : List Confirmation :=
  (ds.filter fun d => d.coinid = k).map Deposit.confirmation

/-- **The updates of a run of messages** are those of the first one of each transaction. -/
theorem run_told (hkeeps : gp.keeps k) (hdaemon : ¬ (gp.coin k).daemon) (hrender : PrintsInt32 render)
    (hsent : ∀ d ∈ sent, d.Plain) (hes : List.Forall₂ (Deposit.Told render) sent es) {seen : List Text}
    (hs : Replicated seen (lps k)) (hrun : Run.run (step render satoshis gp) lps es = some lps') :
    Posted (gp.coin k) ((firsts Confirmation.key seen (confirmationsOf k sent)).map depositPosting)
      (lps k) (lps' k) := by
  induction hes generalizing lps seen with
  | nil =>
    obtain rfl := Option.some.inj hrun
    exact .of_eq rfl rfl
  | @cons d e sent es htold _ ih =>
    obtain ⟨hd, hsent⟩ := List.forall_mem_cons.mp hsent
    obtain ⟨mid, hmid, hrest⟩ := Option.bind_eq_some_iff.mp hrun
    obtain rfl := (hd.told_iff hrender).mp htold
    have hgateway : FromGateway render gp (.depositConfirmed d.sender d.amtxid (objectOf d.fields)) :=
      ⟨hd.sender, hd.amtxid, by rintro ⟨⟩⟩
    rcases step_replicated hkeeps hdaemon hgateway hs hmid with ⟨m, hm, -, hrep, hposted⟩ | ⟨ev, -, hev, -⟩ |
        ⟨hm, -, hrep, hposted⟩
    · rw [messageOf, Option.ite_none_right_eq_some] at hm
      obtain ⟨hcoin, hmsg⟩ := hm
      obtain rfl := Option.some.inj hmsg
      rw [hd.readConfirmation] at hrep hposted
      have hcoinid : d.coinid = k := by
        rw [hd.messageCoinid] at hcoin
        omega
      have hown : confirmationsOf k (d :: sent) = d.confirmation :: confirmationsOf k sent := by
        have hfilter : (d :: sent).filter (fun d => d.coinid = k) = d :: sent.filter fun d => d.coinid = k :=
          List.filter_cons_of_pos (decide_eq_true hcoinid)
        unfold confirmationsOf
        rw [hfilter, List.map_cons]
      have hall := hposted.trans (ih hsent hrep hrest)
      rw [hown, firsts]
      by_cases hseen : d.confirmation.key ∈ seen
      · rw [if_pos hseen] at hall ⊢
        exact hall
      · rw [if_neg hseen] at hall ⊢
        exact hall
    · cases hev
    · have hcoinid : d.coinid ≠ k := by
        intro hcoinid
        have hcoin : messageCoinid (objectOf d.fields) = k := by rw [hd.messageCoinid, hcoinid]
        exact absurd hm (by rw [messageOf, if_pos hcoin]; exact Option.some_ne_none _)
      have hother : confirmationsOf k (d :: sent) = confirmationsOf k sent := by
        have hfilter : (d :: sent).filter (fun d => d.coinid = k) = sent.filter fun d => d.coinid = k :=
          List.filter_cons_of_neg fun h => hcoinid (of_decide_eq_true h)
        unfold confirmationsOf
        rw [hfilter]
      rw [hother]
      exact hposted.trans (ih hsent hrep hrest)

theorem postedTo_perm {c : Coin} {type : BalanceType} {ps ps' : List Posting} (h : ps.Perm ps') (owner : Option Text) :
    postedTo c type ps owner = postedTo c type ps' owner := by
  have htotal {qs qs' : List Posting} (hperm : qs.Perm qs') : postedTotal type qs = postedTotal type qs' :=
    ((hperm.filter _).map Posting.value).sum_eq
  cases owner with
  | none => exact htotal h
  | some key =>
    unfold postedTo
    dsimp only
    rw [htotal (h.filter _)]

/-- **A node without the daemon has the deposits of a node with it**, for the coin and for every account, when each
deposit is told of at least once and no transaction has two. -/
theorem watchers_agree {gp' : GatewayInfo} (hkeeps : gp.keeps k) (hdaemon : ¬ (gp.coin k).daemon)
    (hrender : PrintsInt32 render) (hds : ∀ d ∈ ds, d.Plain)
    (honce : ((ds.filter fun d => d.coinid = k).map fun d => d.vp.parent).Nodup)
    (hsent : ∀ d, d ∈ sent ↔ d ∈ ds) (hes : List.Forall₂ (Deposit.Told render) sent es) :
    ∃ lps, Run.run (step render satoshis gp) init es = some lps ∧
      ∀ owner, totalOf (lps k) .deposit owner =
        totalOf (listed (gp'.coin k) (ds.filter fun d => d.coinid = k)) .deposit owner := by
  have hplain : ∀ d ∈ sent, d.Plain := fun d hd => hds d ((hsent d).mp hd)
  have hblank : Blank init := fun _ _ => rfl
  obtain ⟨lps, hrun⟩ := hblank.run satoshis gp hrender hplain hes
  have htold := run_told hkeeps hdaemon hrender hplain hes replicated_init hrun
  have hkeys : ((confirmationsOf k ds).map Confirmation.key).Nodup := by
    have hparents : (confirmationsOf k ds).map Confirmation.key =
        (ds.filter fun d => d.coinid = k).map fun d => d.vp.parent := by
      unfold confirmationsOf
      rw [List.map_map]
      exact List.map_congr_left fun d hd => (hds d (List.mem_of_mem_filter hd)).key
    rwa [hparents]
  have hmem (m : Confirmation) : m ∈ confirmationsOf k sent ↔ m ∈ confirmationsOf k ds := by
    unfold confirmationsOf
    simp only [List.mem_map, List.mem_filter, hsent]
  have hperm := (firsts_perm hkeys hmem).map depositPosting
  have hlisted : (ds.filter fun d => d.coinid = k).map (fun d => depositPosting d.confirmation) =
      (confirmationsOf k ds).map depositPosting := by
    unfold confirmationsOf
    rw [List.map_map]
    rfl
  refine ⟨lps, hrun, fun owner => ?_⟩
  rw [htold.totalOf, (listed_posted _).totalOf, hlisted, postedTo_perm hperm]
  rfl

end Runs

/-- A deposit of DOGE, told of by the issuer. -/
def dogeDeposit (cointxid amtxid : Text) : Deposit where
  coinid := 4
  r := 0
  vp := smallOutput cointxid
  xp := smallDeposit
  sender := nxtIssuerAcct
  amtxid := amtxid

def dogeMessage (d : Deposit) : Step := .depositConfirmed d.sender d.amtxid (objectOf d.fields)

def firstDeposit : Deposit := dogeDeposit "t1".toList "8".toList

def secondDeposit : Deposit := dogeDeposit "t2".toList "9".toList

theorem plain_dogeDeposits : ∀ d ∈ [firstDeposit, secondDeposit], d.Plain := by
  intro d hd
  rcases List.mem_cons.mp hd with rfl | hd
  · constructor <;> decide
  · obtain rfl := List.mem_singleton.mp hd
    constructor <;> decide

/-- The second deposit is told of twice, and first. -/
theorem watchers_agree_twice :
    ∃ lps, Run.run (step id wholeCoins watchingNode) init
        ([secondDeposit, firstDeposit, secondDeposit].map dogeMessage) = some lps ∧
      ∀ owner, totalOf (lps 4) .deposit owner =
        totalOf (listed ((smallGateway 0).coin 4) ([firstDeposit, secondDeposit].filter fun d => d.coinid = 4))
          .deposit owner := by
  have hrender : PrintsInt32 id := fun _ _ _ => rfl
  have htold : ∀ d ∈ [firstDeposit, secondDeposit], d.Told id (dogeMessage d) := fun d hd =>
    ((plain_dogeDeposits d hd).told_iff hrender).mpr rfl
  have hmem (d : Deposit) : d ∈ [secondDeposit, firstDeposit, secondDeposit] ↔ d ∈ [firstDeposit, secondDeposit] := by
    simp only [List.mem_cons, List.not_mem_nil, or_false]
    tauto
  exact watchers_agree (by decide) (by decide) hrender plain_dogeDeposits (by decide) hmem
    (.cons (htold _ (.tail _ (.head _))) (.cons (htold _ (.head _)) (.cons (htold _ (.tail _ (.head _))) .nil)))

end NXTServices.Gateway
