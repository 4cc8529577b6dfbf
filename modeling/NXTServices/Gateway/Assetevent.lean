import NXTServices.Gateway.Handlers
import Mathlib.Algebra.Order.BigOperators.Group.List

/-!
# Asset transfers: what they redeem and what they mark

* `redeemed`, `paidIn` : the amounts that a coin has queued for withdrawal, and those that its asset
  brought to the gateway;
* `Redeems` : the transfers that are taken as redemptions;
* `backed_iff` : **a run's redemptions are backed** exactly when those transfers pay the gateway;
* `Untouched`, `untouched_iff` : **the transfers that leave the books alone**.
-/

namespace NXTServices.Gateway
open Json hiding true false
open Queue

/-- The coin of the asset, when the node keeps it. -/
def eventCoin (gp : GatewayInfo) (ev : AssetEvent) : Option Nat := (convAssetid ev.assetid).filter gp.keeps

section Coin
variable {render : Text → Text} {gp : GatewayInfo} {lps : Replicas} {ev : AssetEvent} {validaddr : Bool}

theorem multigatewayAssetevent_of_none (h : eventCoin gp ev = none) :
    multigatewayAssetevent render gp lps ev validaddr = lps := by
  unfold eventCoin at h
  unfold multigatewayAssetevent
  cases hk : convAssetid ev.assetid with
  | none => rfl
  | some k =>
    rw [hk, Option.filter_eq_none_iff] at h
    exact if_neg (h k rfl)

theorem multigatewayAssetevent_of_some {k : Nat} (h : eventCoin gp ev = some k) :
    multigatewayAssetevent render gp lps ev validaddr =
      Function.update lps k (assetcommand render (gp.coin k) (lps k) ev validaddr) := by
  obtain ⟨hk, hkeeps⟩ := Option.filter_eq_some_iff.mp h
  unfold multigatewayAssetevent
  rw [hk]
  exact if_pos hkeeps

end Coin

/-! ## Comments with the field `crosschain` -/

section Named
variable {render : Text → Text} {c : Coin} {s : Replica} {ev : AssetEvent} {validaddr : Bool}

theorem depositOf_mark (cointxid t t' : Text) (bits : BitVec 64) (vout : Int) :
    depositOf ((s.addTp cointxid).modifyTp t (setMark bits)) t' vout = depositOf s t' vout := by
  have hnum : (((s.addTp cointxid).modifyTp t (setMark bits)).tp t').numvouts = (s.tp t').numvouts := by
    rw [tp_modifyTp_proj CoinTxid.numvouts (fun _ => by rfl), tp_addTp]
  have hslot (i : Nat) : (((s.addTp cointxid).modifyTp t (setMark bits)).tp t').slot i = (s.tp t').slot i := by
    rw [slot_setMark, tp_addTp]
  unfold depositOf
  rw [hnum, hslot]
  rfl

/-- The transaction that a comment names, with its mark. -/
def markedBy (s : Replica) (ev : AssetEvent) (cointxid : Text) : Replica :=
  (s.addTp cointxid).modifyTp (Hashtable.storeKey maxCointxidLen cointxid) (setMark (calcNxt64bits ev.txid))

theorem nxtXferbits_markedBy (cointxid t : Text) :
    ((markedBy s ev cointxid).tp t).nxtXferbits =
      if t = Hashtable.storeKey maxCointxidLen cointxid then calcNxt64bits ev.txid else (s.tp t).nxtXferbits := by
  unfold markedBy
  rw [nxtXferbits_setMark isSome_addTp_self, tp_addTp]

theorem assetcommand_crosschain {name cointxid : Text} {vout : Int}
    (hcross : ev.crosschain render = some (name, cointxid, vout)) :
    ∃ json obj, assetcommand render c s ev validaddr = crosschainEvent c s ev json obj ∧
      copyCJSON (some obj) = name ∧ copyCJSON (getObjectItem json "cointxid".toList) = cointxid ∧
      int32 (getCJSONInt json "vout".toList) = vout := by
  unfold AssetEvent.crosschain at hcross
  unfold assetcommand
  cases hjson : cJSONParse render ev.text with
  | none => simp [hjson] at hcross
  | some json =>
    rw [hjson] at hcross
    obtain ⟨obj, hobj, heq⟩ := Option.map_eq_some_iff.mp hcross
    simp only [Prod.mk.injEq] at heq
    simp only [hobj]
    exact ⟨json, obj, rfl, heq⟩

/-- **A comment that names a transaction of the coin** marks it, and links its deposit or charges it. -/
theorem assetcommand_named {name cointxid : Text} {vout : Int}
    (hcross : ev.crosschain render = some (name, cointxid, vout)) (hname : convCoinstr name = some c.coinid)
    (hne : cointxid ≠ []) :
    assetcommand render c s ev validaddr =
      match depositOf s (Hashtable.storeKey maxCointxidLen cointxid) vout with
      | some (r, xp) =>
        if xp.nxt.assetTxid = 0#64 then
          (markedBy s ev cointxid).modifyXp r fun xp =>
            { xp with nxt := { xp.nxt with assetTxid := calcNxt64bits ev.txid } }
        else markedBy s ev cointxid
      | none =>
        if c.daemon then markedBy s ev cointxid
        else
          depositTransferNXTacct c (markedBy s ev cointxid) ev.sender ev.assetoshis
            (Hashtable.storeKey maxCointxidLen cointxid) vout := by
  obtain ⟨json, obj, heq, hobj, htxid, hvout⟩ := assetcommand_crosschain (c := c) (s := s) hcross
  have hdep : depositOf ((s.addTp cointxid).modifyTp (Hashtable.storeKey maxCointxidLen cointxid)
      fun tp => { tp with nxtXferbits := calcNxt64bits ev.txid }) (Hashtable.storeKey maxCointxidLen cointxid) vout =
      depositOf s (Hashtable.storeKey maxCointxidLen cointxid) vout := depositOf_mark ..
  rw [heq]
  unfold crosschainEvent
  rw [hobj, htxid, hvout, if_pos hname]
  dsimp only
  rw [if_neg hne, hdep]
  rfl

theorem assetcommand_unnamed {name cointxid : Text} {vout : Int}
    (hcross : ev.crosschain render = some (name, cointxid, vout))
    (h : ¬ (convCoinstr name = some c.coinid ∧ cointxid ≠ [])) : assetcommand render c s ev validaddr = s := by
  obtain ⟨json, obj, heq, hobj, htxid, -⟩ := assetcommand_crosschain (c := c) (s := s) hcross
  rw [heq]
  unfold crosschainEvent
  rw [hobj, htxid]
  split
  · next hname =>
    dsimp only
    rw [if_pos (by simpa [hname] using h)]
  · rfl

theorem assetcommand_uncrossed (hcross : ev.crosschain render = none) :
    (cJSONParse render ev.text = none ∧ assetcommand render c s ev validaddr = s) ∨
      ∃ json, cJSONParse render ev.text = some json ∧ getObjectItem json "crosschain".toList = none ∧
        assetcommand render c s ev validaddr = redeemEvent c s ev json validaddr := by
  unfold AssetEvent.crosschain at hcross
  unfold assetcommand
  cases hjson : cJSONParse render ev.text with
  | none => exact .inl ⟨rfl, rfl⟩
  | some json =>
    rw [hjson] at hcross
    have hobj := Option.map_eq_none_iff.mp hcross
    simp only [hobj]
    exact .inr ⟨json, rfl, hobj, rfl⟩

end Named

/-! ## Redemptions -/

def Call.redemption : Call → Option WithdrawInfo
  | .withdrawreq wp => some wp
  | .issueTransferAsset .. | .depositTransfer .. => none

/-- The records that were created and queued. -/
def redemptions (s : Replica) : List WithdrawInfo := s.calls.filterMap Call.redemption

def redeemed (s : Replica) : Int := ((redemptions s).map fun wp => wp.amount.toInt).sum

/-- The transfer is taken as a redemption: a comment without the field `crosschain` that redeems the coin, from
an account that may, to an address that will do, of a transaction without a record. -/
def Redeems (render : Text → Text) (c : Coin) (s : Replica) (ev : AssetEvent) (validaddr : Bool) : Prop :=
  ∃ json obj, cJSONParse render ev.text = some json ∧ getObjectItem json "crosschain".toList = none ∧
    ¬ (ev.sender = nxtIssuerAcct ∨ ev.sender = genesisAcct ∨ isGatewayAddr ev.sender) ∧
    getObjectItem json "redeem".toList = some obj ∧ convCoinstr (copyCJSON (some obj)) = some c.coinid ∧
    (redeemTarget c s ev json).1 ≠ [] ∧ (c.daemon → validaddr) ∧
    s.redeemtxids (Hashtable.storeKey maxNxtaddrLen ev.txid) = none

section Redeem
variable {render : Text → Text} {gp : GatewayInfo} {c : Coin} {s : Replica} {ev : AssetEvent} {validaddr : Bool}

theorem redemptions_enqueueRedeem (key : Text) (wp : WithdrawInfo) :
    redemptions (enqueueRedeem s key wp) = redemptions s ++ [wp] := List.filterMap_append

theorem redemptions_crosschain {target : Text × Text × Int} (hcross : ev.crosschain render = some target) :
    redemptions (assetcommand render c s ev validaddr) = redemptions s := by
  obtain ⟨name, cointxid, vout⟩ := target
  by_cases h : convCoinstr name = some c.coinid ∧ cointxid ≠ []
  · rw [assetcommand_named hcross h.1 h.2]
    split
    · split <;> rfl
    · split
      · rfl
      · show ((s.calls ++ [Call.depositTransfer _ _]).filterMap Call.redemption) = _
        rw [List.filterMap_append]
        exact List.append_nil _
  · rw [assetcommand_unnamed hcross h]

section
variable {json : Json} (hjson : cJSONParse render ev.text = some json)
include hjson

theorem not_redeems (hobj : getObjectItem json "redeem".toList = none) : ¬ Redeems render c s ev validaddr := by
  rintro ⟨json', obj, hjson', -, -, hobj', -⟩
  obtain rfl := Option.some.inj (hjson.symm.trans hjson')
  rw [hobj] at hobj'
  cases hobj'

theorem redeems_iff (hcross : getObjectItem json "crosschain".toList = none) {obj : Json}
    (hobj : getObjectItem json "redeem".toList = some obj) :
    Redeems render c s ev validaddr ↔
      ¬ (ev.sender = nxtIssuerAcct ∨ ev.sender = genesisAcct ∨ isGatewayAddr ev.sender) ∧
        convCoinstr (copyCJSON (some obj)) = some c.coinid ∧ (redeemTarget c s ev json).1 ≠ [] ∧
        (c.daemon → validaddr) ∧ s.redeemtxids (Hashtable.storeKey maxNxtaddrLen ev.txid) = none := by
  constructor
  · rintro ⟨json', obj', hjson', -, hsender, hobj', hrest⟩
    obtain rfl := Option.some.inj (hjson.symm.trans hjson')
    obtain rfl := Option.some.inj (hobj.symm.trans hobj')
    exact ⟨hsender, hrest⟩
  · rintro ⟨hsender, hrest⟩
    exact ⟨json, obj, hjson, hcross, hsender, hobj, hrest⟩

theorem redeemEvent_cases (hcross : getObjectItem json "crosschain".toList = none) :
    (Redeems render c s ev validaddr ∧ ∃ wp : WithdrawInfo, wp.amount = ev.assetoshis ∧
      redemptions (redeemEvent c s ev json validaddr) = redemptions s ++ [wp]) ∨
    (¬ Redeems render c s ev validaddr ∧ redemptions (redeemEvent c s ev json validaddr) = redemptions s) := by
  unfold redeemEvent
  split
  · next h => exact .inr ⟨fun ⟨_, _, _, _, hsender, _⟩ => hsender h, rfl⟩
  · next hsender =>
    split
    · next hobj => exact .inr ⟨not_redeems hjson hobj, rfl⟩
    · next obj hobj =>
      rw [redeems_iff hjson hcross hobj]
      split
      · next hcoin =>
        dsimp only
        split
        · next h =>
          refine .inr ⟨fun ⟨_, _, haddr, hvalid, _⟩ => ?_, rfl⟩
          rcases h with h | ⟨hd, hv⟩
          · exact haddr h
          · exact hv (hvalid hd)
        · next h =>
          push Not at h
          split
          · next hcreated =>
            rw [Table.add_created, Option.isNone_iff_eq_none] at hcreated
            exact .inl ⟨⟨hsender, hcoin, h.1, h.2, hcreated⟩, _, by rfl, redemptions_enqueueRedeem ..⟩
          · next hcreated =>
            rw [Table.add_created, Option.isNone_iff_eq_none] at hcreated
            exact .inr ⟨fun ⟨_, _, _, _, hnone⟩ => hcreated hnone, rfl⟩
      · next hcoin => exact .inr ⟨fun ⟨_, hname, _⟩ => hcoin hname, rfl⟩

end

/-- **What a transfer redeems**: its amount, or nothing. -/
theorem assetcommand_redemptions (render : Text → Text) (c : Coin) (s : Replica) (ev : AssetEvent) (validaddr : Bool) :
    (Redeems render c s ev validaddr ∧ ∃ wp : WithdrawInfo, wp.amount = ev.assetoshis ∧
      redemptions (assetcommand render c s ev validaddr) = redemptions s ++ [wp]) ∨
    (¬ Redeems render c s ev validaddr ∧
      redemptions (assetcommand render c s ev validaddr) = redemptions s) := by
  cases hcross : ev.crosschain render with
  | none =>
    rcases assetcommand_uncrossed (c := c) (s := s) hcross with ⟨hjson, h⟩ | ⟨json, hjson, hobj, h⟩
    · rw [h]
      refine .inr ⟨?_, rfl⟩
      rintro ⟨json, -, hjson', -⟩
      rw [hjson] at hjson'
      cases hjson'
    · rw [h]
      exact redeemEvent_cases hjson hobj
  | some target =>
    refine .inr ⟨?_, redemptions_crosschain hcross⟩
    rintro ⟨json, -, hjson, hnone, -⟩
    simp only [AssetEvent.crosschain, hjson, hnone, Option.map_none] at hcross
    cases hcross

end Redeem

/-! ## Runs of asset transfers -/

/-- Asset transfers, each with the answer of `validate_coinaddr`. -/
def assetevents (render : Text → Text) (gp : GatewayInfo) (lps : Replicas) (evs : List (AssetEvent × Bool)) :
    Replicas :=
  evs.foldl (fun lps e => multigatewayAssetevent render gp lps e.1 e.2) lps

/-- What the transfers bring of the coin's asset to gateway accounts. -/
def paidIn (k : Nat) (evs : List (AssetEvent × Bool)) : Int :=
  ((evs.filter fun e => convAssetid e.1.assetid = some k ∧ isGatewayAddr e.1.receiver).map
    fun e => e.1.assetoshis.toInt).sum

section Backing
variable {render : Text → Text} {gp : GatewayInfo} {lps : Replicas} {ev : AssetEvent} {validaddr : Bool}

theorem paidIn_cons (k : Nat) (e : AssetEvent × Bool) (evs : List (AssetEvent × Bool)) :
    paidIn k (e :: evs) = paidIn k [e] + paidIn k evs := by
  unfold paidIn
  rw [← List.sum_append, ← List.map_append, ← List.filter_append, List.singleton_append]

theorem paidIn_nonneg (k : Nat) (evs : List (AssetEvent × Bool)) : 0 ≤ paidIn k evs := by
  apply List.sum_nonneg
  intro x hx
  obtain ⟨e, -, rfl⟩ := List.mem_map.mp hx
  exact e.1.positive.le

/-- No coin redeems a transfer. -/
def NotRedeemed (render : Text → Text) (gp : GatewayInfo) (lps : Replicas) (e : AssetEvent × Bool) : Prop :=
  ∀ k, eventCoin gp e.1 = some k → ¬ Redeems render (gp.coin k) (lps k) e.1 e.2

theorem notRedeemed_iff {e : AssetEvent × Bool} :
    NotRedeemed render gp lps e ↔
      ∀ k, redemptions (multigatewayAssetevent render gp lps e.1 e.2 k) = redemptions (lps k) := by
  unfold NotRedeemed
  cases hcoin : eventCoin gp e.1 with
  | none => simp [multigatewayAssetevent_of_none hcoin]
  | some k =>
    have hcases := assetcommand_redemptions render (gp.coin k) (lps k) e.1 e.2
    rw [multigatewayAssetevent_of_some hcoin]
    constructor
    · intro h j
      by_cases hj : j = k
      · subst hj
        rw [Function.update_self]
        rcases hcases with ⟨hr, -⟩ | ⟨-, heq⟩
        · exact absurd hr (h j rfl)
        · exact heq
      · rw [Function.update_of_ne hj]
    · intro h j hj hr
      obtain rfl := Option.some.inj hj
      rcases hcases with ⟨-, wp, -, heq⟩ | ⟨hno, -⟩
      · have := h k
        rw [Function.update_self, heq] at this
        simpa using congrArg List.length this
      · exact hno hr

/-- What one transfer redeems is backed, when it pays the gateway or is not redeemed. -/
theorem redeemed_step {e : AssetEvent × Bool}
    (h : isGatewayAddr e.1.receiver = false → NotRedeemed render gp lps e) (k : Nat) :
    redeemed (multigatewayAssetevent render gp lps e.1 e.2 k) ≤ redeemed (lps k) + paidIn k [e] := by
  by_cases hnot : NotRedeemed render gp lps e
  · have := paidIn_nonneg k [e]
    unfold redeemed
    rw [notRedeemed_iff.mp hnot k]
    omega
  · have hpaid : isGatewayAddr e.1.receiver := by
      by_contra hne
      exact hnot (h (by simpa using hne))
    cases hcoin : eventCoin gp e.1 with
    | none =>
      rw [multigatewayAssetevent_of_none hcoin]
      have := paidIn_nonneg k [e]
      omega
    | some j =>
      have hasset := (Option.filter_eq_some_iff.mp hcoin).1
      rw [multigatewayAssetevent_of_some hcoin]
      by_cases hk : k = j
      · subst hk
        have hpays : paidIn k [e] = e.1.assetoshis.toInt := by simp [paidIn, hasset, hpaid]
        have hpos := e.1.positive
        rw [Function.update_self, hpays]
        unfold redeemed
        rcases assetcommand_redemptions render (gp.coin k) (lps k) e.1 e.2
          with ⟨-, wp, hamount, heq⟩ | ⟨-, heq⟩
        · rw [heq, List.map_append, List.sum_append, List.map_singleton, List.sum_singleton, hamount]
        · rw [heq]
          omega
      · have := paidIn_nonneg k [e]
        rw [Function.update_of_ne hk]
        omega

/-- Every transfer of the run that does not pay the gateway is not redeemed. -/
def OnlyPaid (render : Text → Text) (gp : GatewayInfo) (lps : Replicas) (evs : List (AssetEvent × Bool)) : Prop :=
  ∀ before e after, evs = before ++ e :: after → isGatewayAddr e.1.receiver = false →
    NotRedeemed render gp (assetevents render gp lps before) e

theorem OnlyPaid.redeemed_le {evs : List (AssetEvent × Bool)} (h : OnlyPaid render gp lps evs) (k : Nat) :
    redeemed (assetevents render gp lps evs k) ≤ redeemed (lps k) + paidIn k evs := by
  induction evs generalizing lps with
  | nil => simp [assetevents, paidIn]
  | cons e evs ih =>
    have hstep : redeemed (multigatewayAssetevent render gp lps e.1 e.2 k) ≤ redeemed (lps k) + paidIn k [e] :=
      redeemed_step (h [] e evs rfl) k
    have hrest : redeemed (assetevents render gp lps (e :: evs) k) ≤
        redeemed (multigatewayAssetevent render gp lps e.1 e.2 k) + paidIn k evs :=
      ih fun before e' after heq hne => h (e :: before) e' after (by rw [heq, List.cons_append]) hne
    have := paidIn_cons k e evs
    omega

/-- **Redemptions are backed** exactly when no transfer to another account is taken as a redemption: then a run
redeems at most what it brings to the gateway, and each of its transfers to others redeems nothing. -/
theorem backed_iff (render : Text → Text) (gp : GatewayInfo) (lps : Replicas) (evs : List (AssetEvent × Bool)) :
    ((∀ k, redeemed (assetevents render gp lps evs k) ≤ redeemed (lps k) + paidIn k evs) ∧
      ∀ before e after, evs = before ++ e :: after → isGatewayAddr e.1.receiver = false →
        ∀ k, redemptions (assetevents render gp lps (before ++ [e]) k) =
          redemptions (assetevents render gp lps before k)) ↔
      OnlyPaid render gp lps evs := by
  have hstep (before : List (AssetEvent × Bool)) (e : AssetEvent × Bool) :
      assetevents render gp lps (before ++ [e]) =
        multigatewayAssetevent render gp (assetevents render gp lps before) e.1 e.2 := List.foldl_append
  constructor
  · rintro ⟨-, h⟩ before e after heq hne
    apply notRedeemed_iff.mpr
    intro k
    rw [← hstep]
    exact h before e after heq hne k
  · intro h
    refine ⟨h.redeemed_le, fun before e after heq hne k => ?_⟩
    rw [hstep]
    exact notRedeemed_iff.mp (h before e after heq hne) k

end Backing

/-- A payment from one user to another, whose comment redeems it. -/
def sideTransfer : AssetEvent where
  sender := "7".toList
  receiver := "8".toList
  txid := "9".toList
  assetid := assetidStr 4
  assetoshis := 5#64
  comment := some "\x7b\"redeem\":\"DOGE\",\"coinaddr\":\"D\"\x7d".toList
  positive := toInt_five_pos
  txid_ne := calcNxt64bits_nine_ne

theorem not_forall_backed :
    ¬ ∀ (render : Text → Text) (gp : GatewayInfo) (evs : List (AssetEvent × Bool)),
      (evs.map fun e => e.1.txid).Nodup →
      ∀ k, redeemed (assetevents render gp init evs k) ≤ redeemed (init k) + paidIn k evs := by
  intro h
  have := h id (smallGateway 0) [(sideTransfer, true)] (by simp) 4
  exact absurd this (by decide +kernel)

/-! ## Marks -/

/-- Marks, deposits and totals stay. -/
structure Untouched (s s' : Replica) : Prop where
  mark : ∀ t, (s'.tp t).nxtXferbits = (s.tp t).nxtXferbits
  nxt : ∀ r, (s'.vp r).xp.map CrosschainInfo.nxt = (s.vp r).xp.map CrosschainInfo.nxt
  funds : s'.funds = s.funds
  accts : ∀ key, (s'.accts key).funds = (s.accts key).funds

theorem Untouched.refl (s : Replica) : Untouched s s := ⟨fun _ => rfl, fun _ => rfl, rfl, fun _ => rfl⟩

/-- What a comment with the field `crosschain` names, when it fits the asset: the coin, the transaction and the
output. -/
def crosschainTarget (render : Text → Text) (gp : GatewayInfo) (ev : AssetEvent) : Option (Nat × Text × Int) :=
  match eventCoin gp ev, ev.crosschain render with
  | some k, some (name, cointxid, vout) =>
    if convCoinstr name = some k ∧ cointxid ≠ [] then some (k, Hashtable.storeKey maxCointxidLen cointxid, vout)
    else none
  | _, _ => none

/-- The event leaves no trace on the output `vout` of `t`: the transaction carries its mark already, and the
output's deposit a transfer; an output without a deposit is left to the daemon. -/
def Traceless (c : Coin) (s : Replica) (ev : AssetEvent) (t : Text) (vout : Int) : Prop :=
  (s.tp t).nxtXferbits = calcNxt64bits ev.txid ∧
    match depositOf s t vout with
    | some (_, xp) => xp.nxt.assetTxid ≠ 0#64
    | none => c.daemon

section Marks
variable {render : Text → Text} {gp : GatewayInfo} {c : Coin} {s : Replica} {ev : AssetEvent} {validaddr : Bool}

theorem redeemEvent_untouched (json : Json) : Untouched s (redeemEvent c s ev json validaddr) := by
  unfold redeemEvent
  split
  · exact .refl s
  · split
    · exact .refl s
    · split
      · dsimp only
        split
        · exact .refl s
        · split
          · exact ⟨fun _ => rfl, fun _ => rfl, rfl, fun _ => rfl⟩
          · exact .refl s
      · exact .refl s

theorem not_untouched_charge {s₀ : Replica} (h : s.funds = s₀.funds) {value : BitVec 64} (hvalue : value ≠ 0#64)
    (nxtAddr t : Text) (vout : Int) : ¬ Untouched s₀ (depositTransferNXTacct c s nxtAddr value t vout) := by
  intro hu
  have htransfers : s.funds.transfers + value = s₀.funds.transfers := congrArg BalanceInfo.transfers hu.funds
  rw [h] at htransfers
  exact hvalue (by simpa using htransfers)

theorem untouched_markedBy_iff (s : Replica) (ev : AssetEvent) (cointxid : Text) :
    Untouched s (markedBy s ev cointxid) ↔
      (s.tp (Hashtable.storeKey maxCointxidLen cointxid)).nxtXferbits = calcNxt64bits ev.txid := by
  constructor
  · intro h
    have := h.mark (Hashtable.storeKey maxCointxidLen cointxid)
    rw [nxtXferbits_markedBy, if_pos rfl] at this
    exact this.symm
  · intro h
    refine ⟨fun t => ?_, fun _ => rfl, rfl, fun _ => rfl⟩
    rw [nxtXferbits_markedBy]
    split
    · next ht => rw [ht, h]
    · rfl

theorem assetcommand_named_untouched_iff {name cointxid : Text} {vout : Int}
    (hcross : ev.crosschain render = some (name, cointxid, vout)) (hname : convCoinstr name = some c.coinid)
    (hne : cointxid ≠ []) :
    Untouched s (assetcommand render c s ev validaddr) ↔
      Traceless c s ev (Hashtable.storeKey maxCointxidLen cointxid) vout := by
  have hmarked := untouched_markedBy_iff s ev cointxid
  rw [assetcommand_named hcross hname hne, Traceless]
  cases hdep : depositOf s (Hashtable.storeKey maxCointxidLen cointxid) vout with
  | none =>
    dsimp only
    split
    · next hd => simpa [hd] using hmarked
    · next hd =>
      have hvalue : ev.assetoshis ≠ 0#64 := by
        intro h
        have := ev.positive
        rw [h] at this
        exact absurd this (by decide)
      exact iff_of_false (not_untouched_charge (by rfl) hvalue _ _ _) fun h => hd h.2
  | some d =>
    obtain ⟨r, xp⟩ := d
    obtain ⟨-, -, -, hxp, -⟩ := depositOf_eq_some hdep
    dsimp only
    split
    · next hzero =>
      refine iff_of_false (fun h => ?_) fun h => h.2 hzero
      have hnxt := h.nxt r
      rw [xp_modifyXp_self (by exact hxp), hxp, Option.map_some, Option.map_some, Option.some.injEq] at hnxt
      have hbits : calcNxt64bits ev.txid = xp.nxt.assetTxid := congrArg CrosschainNXTinfo.assetTxid hnxt
      exact ev.txid_ne (hbits.trans hzero)
    · next hzero => simpa [hzero] using hmarked

theorem assetcommand_untouched_iff :
    Untouched s (assetcommand render c s ev validaddr) ↔
      ∀ name cointxid vout, ev.crosschain render = some (name, cointxid, vout) →
        convCoinstr name = some c.coinid → cointxid ≠ [] →
        Traceless c s ev (Hashtable.storeKey maxCointxidLen cointxid) vout := by
  cases hcross : ev.crosschain render with
  | none =>
    refine iff_of_true ?_ fun name cointxid vout h => by cases h
    rcases assetcommand_uncrossed (c := c) (s := s) hcross with ⟨-, h⟩ | ⟨json, -, -, h⟩
    · rw [h]
      exact .refl s
    · rw [h]
      exact redeemEvent_untouched json
  | some target =>
    obtain ⟨name, cointxid, vout⟩ := target
    by_cases h : convCoinstr name = some c.coinid ∧ cointxid ≠ []
    · rw [assetcommand_named_untouched_iff hcross h.1 h.2]
      constructor
      · rintro ht name' cointxid' vout' heq - -
        cases heq
        exact ht
      · intro ht
        exact ht name cointxid vout rfl h.1 h.2
    · rw [assetcommand_unnamed hcross h]
      apply iff_of_true (.refl s)
      intro name' cointxid' vout' heq hname hne
      cases heq
      exact absurd ⟨hname, hne⟩ h

/-- **Which transfers leave the books alone**, whoever sends them: those whose comment names no transaction of
their coin, and those that leave no trace on the output it names. -/
theorem untouched_iff (render : Text → Text) (gp : GatewayInfo) (lps : Replicas) (ev : AssetEvent) (validaddr : Bool) :
    (∀ k, Untouched (lps k) (multigatewayAssetevent render gp lps ev validaddr k)) ↔
      ∀ k t vout, crosschainTarget render gp ev = some (k, t, vout) → Traceless (gp.coin k) (lps k) ev t vout := by
  unfold crosschainTarget
  cases hcoin : eventCoin gp ev with
  | none =>
    rw [multigatewayAssetevent_of_none hcoin]
    exact iff_of_true (fun k => .refl _) fun k t vout h => by cases h
  | some j =>
    rw [multigatewayAssetevent_of_some hcoin]
    have hone : (∀ k, Untouched (lps k)
        (Function.update lps j (assetcommand render (gp.coin j) (lps j) ev validaddr) k)) ↔
        Untouched (lps j) (assetcommand render (gp.coin j) (lps j) ev validaddr) := by
      constructor
      · intro h
        have := h j
        rwa [Function.update_self] at this
      · intro h k
        by_cases hk : k = j
        · subst hk
          rwa [Function.update_self]
        · rw [Function.update_of_ne hk]
          exact .refl _
    rw [hone, assetcommand_untouched_iff]
    cases hcross : ev.crosschain render with
    | none => simp
    | some target =>
      obtain ⟨name, cointxid, vout⟩ := target
      constructor
      · intro h k t vout' heq
        dsimp only at heq
        split at heq
        · next hfit =>
          cases heq
          exact h name cointxid vout rfl hfit.1 hfit.2
        · cases heq
      · rintro h name' cointxid' vout' heq hname hne
        cases heq
        exact h j _ vout (if_pos ⟨hname, hne⟩)

end Marks

/-- A user's payment to another that names a deposit. -/
def forgedTransfer : AssetEvent where
  sender := "7".toList
  receiver := "8".toList
  txid := "9".toList
  assetid := assetidStr 4
  assetoshis := 1#64
  comment := some "\x7b\"crosschain\":\"DOGE\",\"cointxid\":\"t1\",\"vout\":0\x7d".toList
  positive := toInt_one_pos
  txid_ne := calcNxt64bits_nine_ne

theorem not_forall_untouched :
    ¬ ∀ (render : Text → Text) (satoshis : Text → BitVec 64) (gp : GatewayInfo) (lps : Replicas),
      Reachable render satoshis gp lps → ∀ (ev : AssetEvent) (validaddr : Bool),
      ¬ (ev.sender = nxtIssuerAcct ∨ ev.sender = genesisAcct ∨ isGatewayAddr ev.sender) →
      ∀ k, Untouched (lps k) (multigatewayAssetevent render gp lps ev validaddr k) := by
  intro h
  have hmark := (h id wholeCoins (smallGateway 0) afterScan ⟨_, run_afterScan⟩ forgedTransfer false
    (by decide +kernel) 4).mark "t1".toList
  exact absurd hmark (by decide +kernel)

end NXTServices.Gateway
