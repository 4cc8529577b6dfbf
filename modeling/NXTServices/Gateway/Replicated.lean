import NXTServices.Gateway.Retry
import NXTServices.Gateway.Totals

/-!
# A node without the daemon of a coin

Such a node does not scan. It keeps the books of the coin by the messages and the transfers of the gateways.

* `messageOf`, `transferOf` : what a step tells about the deposits of the coin;
* `step_replicated` : one step: a message credits its account when it is the first of its transaction, and a
  transfer charges its sender;
* `run_replicated` : the totals after a run;
* `Reconstructed`, `reconstructed_iff` : **the books are those of the messages and the transfers** exactly when
  nothing was told in a later message of a transaction, and each account sent as much as it received.
-/

namespace NXTServices.Gateway
open Json hiding true false
open Tally

/-- The message for a deposit of the coin. -/
def messageOf (k : Nat) : Step → Option Confirmation
  | .depositConfirmed _ _ argjson => if messageCoinid argjson = k then some (readConfirmation argjson) else none
  | _ => none

/-- The transfer for a deposit of the coin. -/
def transferOf (render : Text → Text) (gp : GatewayInfo) (k : Nat) : Step → Option AssetEvent
  | .assetevent ev _ => if (crosschainTarget render gp ev).map Prod.fst = some k then some ev else none
  | _ => none

def messages (k : Nat) (es : List Step) : List Confirmation := es.filterMap (messageOf k)

def transfers (render : Text → Text) (gp : GatewayInfo) (k : Nat) (es : List Step) : List AssetEvent :=
  es.filterMap (transferOf render gp k)

/-- What messages confirm for an account. -/
def confirmedFor (ms : List Confirmation) (key : Text) : BitVec 64 :=
  tally (fun m => acctKey m.nxtAddr) Confirmation.value ms key

def receivedBy (evs : List AssetEvent) (key : Text) : BitVec 64 :=
  tally (fun ev => acctKey ev.receiver) AssetEvent.assetoshis evs key

def sentBy (evs : List AssetEvent) (key : Text) : BitVec 64 :=
  tally (fun ev => acctKey ev.sender) AssetEvent.assetoshis evs key

/-- A message of a gateway, or a transfer of a gateway whose comment names a coin transaction. -/
def FromGateway (render : Text → Text) (gp : GatewayInfo) : Step → Prop
  | .depositConfirmed sender txid argjson => isGatewayAddr sender ∧ calcNxt64bits txid ≠ 0#64 ∧ argjson ≠ .null
  | .assetevent ev _ => isGatewayAddr ev.sender ∧ (crosschainTarget render gp ev).isSome
  | _ => False

/-- No output is known, and the transactions whose first message has come are marked. -/
structure Replicated (seen : List Text) (s : Replica) : Prop where
  vouts : ∀ t, (s.tp t).vouts = none
  numvouts : ∀ t, (s.tp t).numvouts = 0
  confirmed : ∀ t, (s.tp t).confirmedAMbits ≠ 0#64 ↔ t ∈ seen

section Coin
variable {c : Coin} {s s' : Replica} {seen : List Text}

theorem replicated_init : Replicated [] {} := ⟨fun _ => rfl, fun _ => rfl, fun _ => by simp [Replica.tp, Table.empty]⟩

theorem Replicated.congr (h : Replicated seen s) (hvouts : ∀ t, (s'.tp t).vouts = (s.tp t).vouts)
    (hnum : ∀ t, (s'.tp t).numvouts = (s.tp t).numvouts)
    (hconfirmed : ∀ t, (s'.tp t).confirmedAMbits = (s.tp t).confirmedAMbits) : Replicated seen s' where
  vouts t := by rw [hvouts, h.vouts]
  numvouts t := by rw [hnum, h.numvouts]
  confirmed t := by rw [hconfirmed, h.confirmed]

theorem Replicated.of_tp (h : Replicated seen s) (htp : ∀ t, s'.tp t = s.tp t) : Replicated seen s' :=
  h.congr (fun t => by rw [htp]) (fun t => by rw [htp]) fun t => by rw [htp]

theorem Replicated.depositOf (h : Replicated seen s) (t : Text) (vout : Int) : Gateway.depositOf s t vout = none := by
  unfold Gateway.depositOf
  rw [if_neg]
  rw [h.numvouts]
  omega

theorem Replicated.matchingTransfer (h : Replicated seen s) (t : Text) (vout : Int) :
    Gateway.matchingTransfer s t vout = some 0#64 := by
  unfold Gateway.matchingTransfer
  rw [h.vouts]

/-- **The first message of a transaction credits its account**, and marks the transaction. -/
theorem confirmAM_replicated (hdaemon : ¬ c.daemon) (h : Replicated seen s) (cointxid : Text) {txid : Text}
    (htxid : calcNxt64bits txid ≠ 0#64) (nxtAddr : Text) (value : BitVec 64) :
    let t := Hashtable.storeKey maxCointxidLen cointxid
    let s' := confirmAM c (s.addTp cointxid) t (some txid) nxtAddr value
    Replicated (t :: seen) s' ∧ Posted c (if t ∈ seen then [] else [⟨acctKey nxtAddr, .deposit, value⟩]) s s' := by
  intro t s'
  have hadd : Replicated seen (s.addTp cointxid) := h.of_tp fun _ => tp_addTp
  by_cases hseen : t ∈ seen
  · have hs' : s' = s.addTp cointxid := by
      show (if _ then _ else _) = _
      rw [if_neg ((hadd.confirmed t).mpr hseen)]
    rw [hs', if_pos hseen]
    refine ⟨⟨hadd.vouts, hadd.numvouts, fun t' => ?_⟩, .of_eq rfl rfl⟩
    rw [hadd.confirmed, List.mem_cons]
    exact ⟨.inr, fun hmem => hmem.elim (fun heq => heq ▸ hseen) id⟩
  · have hzero : ((s.addTp cointxid).tp t).confirmedAMbits = 0#64 := by
      by_contra hne
      exact hseen ((hadd.confirmed t).mp hne)
    let mid := (s.addTp cointxid).modifyTp t fun tp => { tp with confirmedAMbits := calcNxt64bits txid }
    have hs' : s' = depositNXTacct c mid nxtAddr value := by
      show (if _ then _ else _) = _
      rw [if_pos hzero]
      exact if_neg hdaemon
    rw [hs', if_neg hseen]
    refine ⟨⟨fun t' => ?_, fun t' => ?_, fun t' => ?_⟩, ?_⟩
    · show (mid.tp t').vouts = none
      rw [tp_modifyTp_proj CoinTxid.vouts (fun _ => by rfl), hadd.vouts]
    · show (mid.tp t').numvouts = 0
      rw [tp_modifyTp_proj CoinTxid.numvouts (fun _ => by rfl), hadd.numvouts]
    · show (mid.tp t').confirmedAMbits ≠ 0#64 ↔ _
      by_cases ht : t' = t
      · subst ht
        rw [tp_modifyTp_self isSome_addTp_self]
        exact iff_of_true htxid List.mem_cons_self
      · rw [tp_modifyTp_of_ne ht, hadd.confirmed, List.mem_cons]
        exact ⟨.inr, fun hmem => hmem.elim (fun heq => absurd heq ht) id⟩
    · have hcredit : Posted c _ mid (depositNXTacct c mid nxtAddr value) := .update .deposit nxtAddr value
      exact ⟨hcredit.funds, hcredit.accts⟩

theorem decodeDepositconfirmed_untransferred {argjson : Json} {amtxid : Option Text} {mid : Replica}
    (hmid : confirmAM c (s.addTp (readConfirmation argjson).cointxid) (readConfirmation argjson).key amtxid
      (readConfirmation argjson).nxtAddr (readConfirmation argjson).value = mid)
    (h : matchingTransfer mid (readConfirmation argjson).key (readConfirmation argjson).vout = some 0#64) :
    decodeDepositconfirmed c s argjson amtxid = some (-1, mid) := by
  unfold readConfirmation Confirmation.key at hmid h
  unfold decodeDepositconfirmed
  dsimp only at hmid h ⊢
  rw [hmid, h, Option.map_some, if_neg]
  simp

theorem decodeDepositconfirmed_replicated {argjson : Json} {txid : Text} {code : Int} (hdaemon : ¬ c.daemon)
    (htxid : calcNxt64bits txid ≠ 0#64) (hs : Replicated seen s)
    (h : decodeDepositconfirmed c s argjson (some txid) = some (code, s')) :
    Replicated ((readConfirmation argjson).key :: seen) s' ∧
      Posted c (if (readConfirmation argjson).key ∈ seen then []
        else [⟨acctKey (readConfirmation argjson).nxtAddr, .deposit, (readConfirmation argjson).value⟩]) s s' := by
  obtain ⟨hrep, hposted⟩ := confirmAM_replicated hdaemon hs (readConfirmation argjson).cointxid htxid
    (readConfirmation argjson).nxtAddr (readConfirmation argjson).value
  have hone : decodeDepositconfirmed c s argjson (some txid) = some (-1, _) :=
    decodeDepositconfirmed_untransferred rfl (hrep.matchingTransfer _ _)
  obtain ⟨-, rfl⟩ := Prod.mk.inj (Option.some.inj (hone.symm.trans h))
  exact ⟨hrep, hposted⟩

/-- **A transfer charges its sender.** -/
theorem assetcommand_replicated {render : Text → Text} {gp : GatewayInfo} {k : Nat} {ev : AssetEvent} (validaddr : Bool)
    (hdaemon : ¬ (gp.coin k).daemon) (h : Replicated seen s)
    (htarget : (crosschainTarget render gp ev).map Prod.fst = some k) :
    Replicated seen (assetcommand render (gp.coin k) s ev validaddr) ∧
      Posted (gp.coin k) [⟨acctKey ev.sender, .depositTransfer, ev.assetoshis⟩] s
        (assetcommand render (gp.coin k) s ev validaddr) := by
  obtain ⟨⟨k', t, vout⟩, hnamed, hk⟩ := Option.map_eq_some_iff.mp htarget
  obtain rfl : k' = k := hk
  obtain ⟨-, name, cointxid, hcross, hname, hne, -⟩ := target_eq_some hnamed
  rw [assetcommand_named hcross hname hne, h.depositOf]
  dsimp only
  rw [if_neg hdaemon]
  constructor
  · have hadd : Replicated seen (s.addTp cointxid) := h.of_tp fun _ => tp_addTp
    exact hadd.congr (fun t => tp_modifyTp_proj CoinTxid.vouts (fun _ => by rfl) t)
      (fun t => tp_modifyTp_proj CoinTxid.numvouts (fun _ => by rfl) t)
      fun t => tp_modifyTp_proj CoinTxid.confirmedAMbits (fun _ => by rfl) t
  · have hcharge : Posted (gp.coin k') _ (markedBy s ev cointxid) _ := .update .depositTransfer ev.sender ev.assetoshis
    exact ⟨hcharge.funds, hcharge.accts⟩

end Coin

section Runs
variable {render : Text → Text} {satoshis : Text → BitVec 64} {gp : GatewayInfo} {lps lps' : Replicas} {k : Nat}
  {seen : List Text} {e : Step} {es : List Step}

theorem enqueueRetry_books (k coinid : Nat) (one : Bool) (argjson : Json) :
    (∀ t, (enqueueRetry lps coinid one argjson k).tp t = (lps k).tp t) ∧
      (enqueueRetry lps coinid one argjson k).funds = (lps k).funds ∧
      (enqueueRetry lps coinid one argjson k).accts = (lps k).accts := by
  unfold enqueueRetry
  by_cases hk : k = coinid
  · subst hk
    rw [Function.update_self]
    exact ⟨fun _ => rfl, rfl, rfl⟩
  · rw [Function.update_of_ne hk]
    exact ⟨fun _ => rfl, rfl, rfl⟩

theorem decodeDepositconfirmedJson_replicated {argjson : Json} {txid : Text} {code : Int} (hkeeps : gp.keeps k)
    (hdaemon : ¬ (gp.coin k).daemon) (hnull : argjson ≠ .null) (htxid : calcNxt64bits txid ≠ 0#64)
    (hs : Replicated seen (lps k)) (h : decodeDepositconfirmedJson gp lps argjson (some txid) = some (code, lps')) :
    (messageCoinid argjson = k ∧ Replicated ((readConfirmation argjson).key :: seen) (lps' k) ∧
        Posted (gp.coin k) (if (readConfirmation argjson).key ∈ seen then []
          else [⟨acctKey (readConfirmation argjson).nxtAddr, .deposit, (readConfirmation argjson).value⟩])
          (lps k) (lps' k)) ∨
      (messageCoinid argjson ≠ k ∧ lps' k = lps k) := by
  unfold decodeDepositconfirmedJson at h
  split at h
  · exact absurd rfl hnull
  · dsimp only at h
    split at h
    · next hrange =>
      have hk : messageCoinid argjson = k ↔ (messageCoinid argjson).toNat = k := by
        have hnonneg : 0 ≤ messageCoinid argjson := hrange.1
        omega
      split at h
      · obtain ⟨⟨code', s'⟩, hdec, heq⟩ := Option.map_eq_some_iff.mp h
        obtain ⟨rfl, rfl⟩ := Prod.mk.inj heq
        by_cases hcoin : (messageCoinid argjson).toNat = k
        · subst hcoin
          refine .inl ⟨hk.mpr rfl, ?_⟩
          have hdone := decodeDepositconfirmed_replicated hdaemon htxid hs hdec
          exact (Function.update_self (messageCoinid argjson).toNat s' lps).symm ▸ hdone
        · refine .inr ⟨fun h => hcoin (hk.mp h), ?_⟩
          exact Function.update_of_ne (Ne.symm hcoin) _ _
      · next hkept =>
        obtain ⟨rfl, rfl⟩ := Prod.mk.inj (Option.some.inj h)
        refine .inr ⟨fun h => hkept ?_, rfl⟩
        rw [show (int32 (getCJSONInt argjson "coinid".toList)).toNat = k from hk.mp h]
        exact hkeeps
    · cases h

/-- What a step of a gateway does to the coin: a first message credits, a later one does nothing, and a transfer
charges. -/
theorem step_replicated (hkeeps : gp.keeps k) (hdaemon : ¬ (gp.coin k).daemon) (he : FromGateway render gp e)
    (hs : Replicated seen (lps k)) (h : step render satoshis gp lps e = some lps') :
    (∃ m, messageOf k e = some m ∧ transferOf render gp k e = none ∧ Replicated (m.key :: seen) (lps' k) ∧
        Posted (gp.coin k) (if m.key ∈ seen then [] else [⟨acctKey m.nxtAddr, .deposit, m.value⟩]) (lps k) (lps' k)) ∨
      (∃ ev, messageOf k e = none ∧ transferOf render gp k e = some ev ∧ Replicated seen (lps' k) ∧
        Posted (gp.coin k) [⟨acctKey ev.sender, .depositTransfer, ev.assetoshis⟩] (lps k) (lps' k)) ∨
      (messageOf k e = none ∧ transferOf render gp k e = none ∧ Replicated seen (lps' k) ∧
        Posted (gp.coin k) [] (lps k) (lps' k)) := by
  cases e with
  | depositConfirmed sender txid argjson =>
    obtain ⟨hsender, htxid, hnull⟩ := he
    simp only [step, if_pos hsender] at h
    obtain ⟨⟨code, mid⟩, hdec, rfl⟩ := Option.map_eq_some_iff.mp h
    have hsame (mid' : Replicas)
        (hmid' : mid' = if 0 ≤ code then enqueueRetry mid code.toNat Bool.false argjson else mid) :
        (∀ t, (mid' k).tp t = (mid k).tp t) ∧ (mid' k).funds = (mid k).funds ∧ (mid' k).accts = (mid k).accts := by
      subst hmid'
      split
      · exact enqueueRetry_books k code.toNat Bool.false argjson
      · exact ⟨fun _ => rfl, rfl, rfl⟩
    obtain ⟨htp, hfunds, haccts⟩ := hsame _ rfl
    rcases decodeDepositconfirmedJson_replicated hkeeps hdaemon hnull htxid hs hdec with
      ⟨hcoin, hrep, hposted⟩ | ⟨hcoin, hmid⟩
    · exact .inl ⟨_, if_pos hcoin, rfl, hrep.of_tp htp, hposted.congr hfunds haccts⟩
    · refine .inr (.inr ⟨if_neg hcoin, rfl, ?_, .of_eq (hfunds.trans ?_) (haccts.trans ?_)⟩)
      · exact hs.of_tp fun t => (htp t).trans (by rw [hmid])
      · rw [hmid]
      · rw [hmid]
  | assetevent ev validaddr =>
    obtain ⟨-, htarget⟩ := he
    obtain ⟨⟨k', t, vout⟩, htarget⟩ := Option.isSome_iff_exists.mp htarget
    have hcoin := (target_eq_some htarget).1
    rw [step_assetevent hcoin] at h
    obtain rfl := Option.some.inj h
    by_cases hk : k' = k
    · subst hk
      have hmap : (crosschainTarget render gp ev).map Prod.fst = some k' := by rw [htarget]; rfl
      obtain ⟨hrep, hposted⟩ := assetcommand_replicated validaddr hdaemon hs hmap
      refine .inr (.inl ⟨ev, rfl, if_pos hmap, ?_, ?_⟩)
      · rwa [Function.update_self]
      · rwa [Function.update_self]
    · refine .inr (.inr ⟨rfl, if_neg ?_, ?_, ?_⟩)
      · rw [htarget]
        simpa using hk
      · rwa [Function.update_of_ne (Ne.symm hk)]
      · rw [Function.update_of_ne (Ne.symm hk)]
        exact .of_eq rfl rfl
  | scan | retry | transfer | bind => exact he.elim

/-- **The totals of an account after a run** of messages and transfers. -/
theorem run_replicated (hkeeps : gp.keeps k) (hdaemon : ¬ (gp.coin k).daemon) (hlegal : (gp.coin k).legal)
    (hes : ∀ e ∈ es, FromGateway render gp e) (hs : Replicated seen (lps k))
    (hrun : Run.run (step render satoshis gp) lps es = some lps') (key : Text) :
    totalOf (lps' k) .deposit (some key) =
        totalOf (lps k) .deposit (some key) + confirmedFor (firsts Confirmation.key seen (messages k es)) key ∧
      totalOf (lps' k) .depositTransfer (some key) =
        totalOf (lps k) .depositTransfer (some key) + sentBy (transfers render gp k es) key := by
  induction es generalizing lps seen with
  | nil =>
    obtain rfl := Option.some.inj hrun
    simp [messages, transfers, firsts, confirmedFor, sentBy]
  | cons e es ih =>
    obtain ⟨mid, hmid, hrest⟩ := Option.bind_eq_some_iff.mp hrun
    obtain ⟨he, hes⟩ := List.forall_mem_cons.mp hes
    unfold messages transfers confirmedFor sentBy at ih ⊢
    rcases step_replicated hkeeps hdaemon he hs hmid with ⟨m, hm, hev, hrep, hposted⟩ | ⟨ev, hm, hev, hrep, hposted⟩ |
        ⟨hm, hev, hrep, hposted⟩
    · obtain ⟨hdep, htrans⟩ := ih hes hrep hrest
      rw [hdep, htrans, hposted.totalOf, hposted.totalOf, List.filterMap_cons_some hm, List.filterMap_cons_none hev]
      rw [firsts]
      split
      · simp [postedTo_nil]
      · rw [postedTo_singleton hlegal, postedTo_singleton hlegal, tally_cons]
        simp [BitVec.add_assoc]
    · obtain ⟨hdep, htrans⟩ := ih hes hrep hrest
      rw [hdep, htrans, hposted.totalOf, hposted.totalOf, List.filterMap_cons_none hm, List.filterMap_cons_some hev,
        postedTo_singleton hlegal, postedTo_singleton hlegal, tally_cons]
      simp [BitVec.add_assoc]
    · obtain ⟨hdep, htrans⟩ := ih hes hrep hrest
      rw [hdep, htrans, hposted.totalOf, hposted.totalOf, List.filterMap_cons_none hm, List.filterMap_cons_none hev,
        postedTo_nil, postedTo_nil]
      simp

/-- The books of every account are those that the messages and the transfers tell of. -/
structure Reconstructed (s : Replica) (ms : List Confirmation) (evs : List AssetEvent) : Prop where
  deposits : ∀ key, totalOf s .deposit (some key) = confirmedFor ms key
  transfers : ∀ key, totalOf s .depositTransfer (some key) = receivedBy evs key

/-- **A node without the daemon reconstructs the books** exactly when, account by account, the messages that are not
the first of their coin transaction come to nothing and as much was sent as received. -/
theorem reconstructed_iff (hkeeps : gp.keeps k) (hdaemon : ¬ (gp.coin k).daemon) (hlegal : (gp.coin k).legal)
    (hes : ∀ e ∈ es, FromGateway render gp e) (hrun : Run.run (step render satoshis gp) init es = some lps) :
    Reconstructed (lps k) (messages k es) (transfers render gp k es) ↔
      ∀ key, confirmedFor (repeats Confirmation.key [] (messages k es)) key = 0#64 ∧
        sentBy (transfers render gp k es) key = receivedBy (transfers render gp k es) key := by
  have htotals (key : Text) := run_replicated hkeeps hdaemon hlegal hes replicated_init hrun key
  have hzero (type : BalanceType) (key : Text) : totalOf (init k) type (some key) = 0#64 := by cases type <;> rfl
  have hsplit (key : Text) : confirmedFor (firsts Confirmation.key [] (messages k es)) key +
      confirmedFor (repeats Confirmation.key [] (messages k es)) key = confirmedFor (messages k es) key :=
    tally_firsts_add_repeats key
  constructor
  · intro h key
    obtain ⟨hdep, htrans⟩ := htotals key
    rw [hzero, BitVec.zero_add] at hdep htrans
    refine ⟨?_, htrans.symm.trans (h.transfers key)⟩
    have hall := h.deposits key
    rw [hdep, ← hsplit key] at hall
    exact left_eq_add.mp hall
  · intro h
    constructor
    · intro key
      rw [(htotals key).1, hzero, BitVec.zero_add, ← hsplit key, (h key).1, BitVec.add_zero]
    · intro key
      rw [(htotals key).2, hzero, BitVec.zero_add, (h key).2]

end Runs

/-- A node that keeps DOGE without its daemon. -/
def watchingNode : GatewayInfo := { gatewayid := -1, replicants := fun k => k == 4, daemons := fun _ => Bool.false }

/-- A message for an output of 5 coins, to the account `3`. -/
def depositMessage (txid cointxid vout : Text) : Step :=
  .depositConfirmed nxtIssuerAcct txid <|
    .object [("NXTaddr".toList, .string "3".toList), ("coin".toList, .string "DOGE".toList),
      ("coinid".toList, .number "4".toList), ("cointxid".toList, .string cointxid),
      ("coinaddr".toList, .string "A".toList), ("vout".toList, .number vout),
      ("value".toList, .number "500000000".toList), ("assetoshis".toList, .number "500000000".toList)]

theorem fromGateway_depositMessage {render : Text → Text} {gp : GatewayInfo} {txid : Text}
    (h : calcNxt64bits txid ≠ 0#64) (cointxid vout : Text) :
    FromGateway render gp (depositMessage txid cointxid vout) := ⟨by decide, h, by rintro ⟨⟩⟩

theorem fromGateway_pair {render : Text → Text} {gp : GatewayInfo} {txid txid' : Text} (h : calcNxt64bits txid ≠ 0#64)
    (h' : calcNxt64bits txid' ≠ 0#64) (cointxid cointxid' vout vout' : Text) :
    ∀ e ∈ [depositMessage txid cointxid vout, depositMessage txid' cointxid' vout'], FromGateway render gp e := by
  intro e he
  rcases List.mem_cons.mp he with rfl | he
  · exact fromGateway_depositMessage h cointxid vout
  · obtain rfl := List.mem_singleton.mp he
    exact fromGateway_depositMessage h' cointxid' vout'

/-- Two transactions with one deposit each. -/
def singleDeposits : List Step :=
  [depositMessage "8".toList "t1".toList "0".toList, depositMessage "9".toList "t2".toList "0".toList]

theorem reconstructed_singleDeposits :
    ∃ lps, Run.run (step id wholeCoins watchingNode) init singleDeposits = some lps ∧
      Reconstructed (lps 4) (messages 4 singleDeposits) (transfers id watchingNode 4 singleDeposits) := by
  have hrun : (Run.run (step id wholeCoins watchingNode) init singleDeposits).isSome := by decide +kernel
  obtain ⟨lps, hlps⟩ := Option.isSome_iff_exists.mp hrun
  refine ⟨lps, hlps, (reconstructed_iff (by decide) (by decide) (by decide) ?_ hlps).mpr fun key => ?_⟩
  · exact fromGateway_pair (by decide) (by decide) _ _ _ _
  · have hrepeats : (repeats Confirmation.key [] (messages 4 singleDeposits)).isEmpty := by decide +kernel
    rw [List.isEmpty_iff.mp hrepeats]
    exact ⟨rfl, rfl⟩

/-- The transaction of a message. -/
def messageTxid : Step → Option Text
  | .depositConfirmed _ txid _ => some txid
  | _ => none

/-- One transaction with two deposits. -/
def sharedDeposits : List Step :=
  [depositMessage "8".toList "t1".toList "0".toList, depositMessage "9".toList "t1".toList "1".toList]

theorem wellFormed_sharedDeposits {sender txid : Text} {argjson : Json}
    (h : .depositConfirmed sender txid argjson ∈ sharedDeposits) : WellFormed watchingNode argjson := by
  rcases List.mem_cons.mp h with heq | h
  · obtain ⟨rfl, rfl, rfl⟩ := Step.depositConfirmed.inj heq
    exact ⟨⟨by decide, by decide, by decide, by decide, by decide +kernel, by decide +kernel⟩, by decide, by decide,
      by decide, by decide, by decide, by decide⟩
  · obtain ⟨rfl, rfl, rfl⟩ := Step.depositConfirmed.inj (List.mem_singleton.mp h)
    exact ⟨⟨by decide, by decide, by decide, by decide, by decide +kernel, by decide +kernel⟩, by decide, by decide,
      by decide, by decide, by decide, by decide⟩

/-- Of two deposits in one transaction the second one is lost. -/
theorem not_forall_reconstructed :
    ¬ ∀ (render : Text → Text) (satoshis : Text → BitVec 64) (gp : GatewayInfo) (es : List Step) (lps : Replicas)
    (k : Nat),
      gp.keeps k → ¬ (gp.coin k).daemon → (gp.coin k).legal → (∀ e ∈ es, FromGateway render gp e) →
      (∀ sender txid argjson, .depositConfirmed sender txid argjson ∈ es → WellFormed gp argjson) →
      (es.filterMap messageTxid).Nodup →
      ((messages k es).map fun m => (m.key, m.vout)).Nodup →
      Run.run (step render satoshis gp) init es = some lps →
      Reconstructed (lps k) (messages k es) (transfers render gp k es) := by
  intro h
  have hrun : (Run.run (step id wholeCoins watchingNode) init sharedDeposits).map (fun lps =>
      totalOf (lps 4) .deposit (some (acctKey "3".toList))) = some 500000000#64 := by decide +kernel
  obtain ⟨lps, hlps, hone⟩ := Option.map_eq_some_iff.mp hrun
  have hbooks := h id wholeCoins watchingNode sharedDeposits lps 4 (by decide) (by decide) (by decide)
    (fromGateway_pair (by decide) (by decide) _ _ _ _) (fun _ _ _ => wellFormed_sharedDeposits) (by decide)
    (by decide +kernel) hlps
  have htwo : confirmedFor (messages 4 sharedDeposits) (acctKey "3".toList) = 1000000000#64 := by decide +kernel
  have hdeposits := hbooks.deposits (acctKey "3".toList)
  rw [hone, htwo] at hdeposits
  exact absurd hdeposits (by decide)

end NXTServices.Gateway
