import NXTServices.Gateway.Accounts
import NXTServices.Gateway.Assetevent
import NXTServices.Gateway.Issue
import Mathlib.Data.BitVec

/-!
# The transfers total: how often and in which order it is charged

* `charges` : how often an output was charged;
* `Charged` : a charged output is recorded as pending;
* `charged_once` : **an output is charged at most once** while no scan drops a pending deposit;
* `BalanceInfo.post` : a list of updates of a total;
* `orders_agree_iff` : **the order of a scan and of the transfer of its deposit** does not matter exactly when
  the transaction carries a mark already, or there is nothing to charge.
-/

namespace NXTServices.Gateway
open Json hiding true false
open Queue

/-! ## One charge for an output -/

def charges (s : Replica) (t : Text) (vout : Int) : Nat := s.calls.count (.depositTransfer t vout)

/-- The output is recorded, and its deposit is pending. -/
def PendingAt (s : Replica) (t : Text) (vout : Int) : Prop :=
  ∃ (i : Nat) (r : Nat) (xp : CrosschainInfo), vout = i ∧ (s.tp t).slot i = some r ∧ (s.vp r).xp = some xp ∧
    xp.nxt.pending ≠ 0

/-- No output is charged twice, and a charged one is pending. -/
def Charged (s : Replica) : Prop :=
  ∀ t vout, charges s t vout = 0 ∨ (charges s t vout = 1 ∧ PendingAt s t vout)

/-- None of the recorded outputs of `t` is pending. -/
def NonePending (s : Replica) (t : Text) : Prop :=
  ∀ i r xp, (s.tp t).slot i = some r → (s.vp r).xp = some xp → xp.nxt.pending = 0

/-- A scan may only clear the slots of a transaction without pending deposits. -/
def settledRules : Rules where
  clear := NonePending
  clear_frame h hs i r xp hslot hxp := by
    rw [h.slot] at hslot
    rw [h.xp] at hxp
    exact hs i r xp hslot hxp

section Once
variable {c : Coin} {s s' : Replica}

theorem charged_init : Charged {} := fun _ _ => .inl rfl

theorem Charged.of_same (hs : Charged s) (hcharges : ∀ t vout, charges s' t vout = charges s t vout)
    (hpending : ∀ t vout, PendingAt s t vout → PendingAt s' t vout) : Charged s' := by
  intro t vout
  rw [hcharges]
  exact (hs t vout).imp_right (And.imp_right (hpending t vout))

theorem PendingAt.of_shape (h : Shape s s')
    (hxp : ∀ r xp xp', (s.vp r).xp = some xp → (s'.vp r).xp = some xp' → xp.nxt.pending ≠ 0 → xp'.nxt.pending ≠ 0)
    {t : Text} {vout : Int} (hp : PendingAt s t vout) : PendingAt s' t vout := by
  obtain ⟨i, r, xp, hv, hslot, hr, hpend⟩ := hp
  obtain ⟨xp', hr', -⟩ := h.after hr
  exact ⟨i, r, xp', hv, by rw [h.slot, hslot], hr', hxp r xp xp' hr hr' hpend⟩

theorem PendingAt.modifyXp {r : Nat} {f : CrosschainInfo → CrosschainInfo} (hfixed : ∀ xp, (f xp).fixed = xp.fixed)
    (hf : ∀ xp : CrosschainInfo, xp.nxt.pending ≠ 0 → (f xp).nxt.pending ≠ 0) {t : Text} {vout : Int}
    (hp : PendingAt s t vout) : PendingAt (s.modifyXp r f) t vout := by
  apply hp.of_shape (.of_modifyXp r hfixed)
  intro q xp xp' hxp hxp' hpend
  rw [xp_modifyXp, hxp] at hxp'
  split at hxp'
  · obtain rfl := Option.some.inj hxp'
    exact hf xp hpend
  · obtain rfl := Option.some.inj hxp'
    exact hpend

theorem pending_or_one (n : Nat) : n ||| 1 ≠ 0 := by simp [Nat.or_eq_zero_iff]

theorem charges_append (calls : List Call) (t : Text) (vout : Int) (h : s'.calls = s.calls ++ calls) :
    charges s' t vout = charges s t vout + calls.count (.depositTransfer t vout) := by
  unfold charges
  rw [h, List.count_append]

theorem charges_of_frame (h : Frame s s') (t : Text) (vout : Int) : charges s' t vout = charges s t vout := by
  obtain ⟨wps, hcalls⟩ := h.calls
  rw [charges_append _ t vout hcalls, List.count_eq_zero.mpr, Nat.add_zero]
  intro hmem
  obtain ⟨wp, -, hwp⟩ := List.mem_map.mp hmem
  cases hwp

/-- An act that charges an output which was not pending, and makes it so. -/
theorem Charged.of_charge (hs : Charged s) (t : Text) (vout : Int) (hnot : ¬ PendingAt s t vout)
    {calls : List Call} (hcalls : s'.calls = s.calls ++ calls)
    (hone : calls = [] ∨ (calls = [.depositTransfer t vout] ∧ PendingAt s' t vout))
    (hpending : ∀ t' vout', PendingAt s t' vout' → PendingAt s' t' vout') : Charged s' := by
  intro t' vout'
  rw [charges_append _ t' vout' hcalls]
  rcases hone with rfl | ⟨rfl, hp⟩
  · exact (hs t' vout').imp_right (And.imp_right (hpending t' vout'))
  · by_cases heq : t' = t ∧ vout' = vout
    · obtain ⟨rfl, rfl⟩ := heq
      rcases hs t' vout' with h | ⟨-, h⟩
      · exact .inr ⟨by simp [h], hp⟩
      · exact absurd h hnot
    · have hzero : [Call.depositTransfer t vout].count (.depositTransfer t' vout') = 0 := by
        rw [List.count_eq_zero, List.mem_singleton]
        rintro h
        cases h
        exact heq ⟨rfl, rfl⟩
      rw [hzero]
      exact (hs t' vout').imp_right (And.imp_right (hpending t' vout'))

theorem clear_charged (hs : Charged s) {t : Text} (n : Nat) (h : NonePending s t) :
    Charged (s.modifyTp t (clearSlots n)) := by
  intro t' vout
  rcases hs t' vout with h0 | ⟨h1, i, r, xp, hv, hslot, hxp, hpend⟩
  · exact .inl h0
  · have hne : t' ≠ t := by
      rintro rfl
      exact hpend (h i r xp hslot hxp)
    exact .inr ⟨h1, i, r, xp, hv, by rwa [tp_modifyTp_of_ne hne], hxp, hpend⟩

theorem seeOutput_charged (hwf : s.WF) (hs : Charged s) {t : Text} (isconfirmed : Nat) (am : Nat → BitVec 64)
    {o : Output} (known : (s.coinTxids t).isSome) (null : (s.tp t).slot o.vout = none)
    (room : o.vout < ((s.tp t).vouts.getD []).length) : Charged (seeOutput c t isconfirmed am s o) := by
  have hkept (t' : Text) (vout : Int) (hp : PendingAt s t' vout) :
      PendingAt (seeOutput c t isconfirmed am s o) t' vout := by
    obtain ⟨i, r, xp, rfl, hslot, hxp, hpend⟩ := hp
    have hne : i ≠ o.vout ∨ t' ≠ t := by
      by_contra h
      push Not at h
      obtain ⟨rfl, rfl⟩ := h
      rw [null] at hslot
      cases hslot
    have hr : r ≠ s.values.next := by
      rintro rfl
      rw [hwf.free] at hxp
      cases hxp
    refine ⟨i, r, xp, rfl, ?_, ?_, hpend⟩
    · rwa [slot_seeOutput_of_ne hne]
    · rwa [vp_seeOutput, if_neg hr]
  refine hs.of_charge t o.vout ?_ (calls_seeOutput t isconfirmed am o) ?_ hkept
  · rintro ⟨i, r, xp, hv, hslot, -⟩
    obtain rfl : o.vout = i := by omega
    rw [null] at hslot
    cases hslot
  · split
    · next hdue =>
      refine .inr ⟨rfl, o.vout, s.values.next, newDeposit c s t isconfirmed o (am o.vout), rfl, ?_, ?_, ?_⟩
      · rw [tp_seeOutput, tp_modifyTp_self known, slot_fillSlot, if_pos ⟨rfl, room⟩]
      · rw [vp_seeOutput, if_pos rfl]
        rfl
      · obtain ⟨msig, hmsig⟩ := Option.isSome_iff_exists.mp hdue.1
        simp [newDeposit, hmsig, newNXT, hdue.2]
    · exact .inl rfl

theorem settleDeposit_charged (hs : Charged s) {t : Text} {i r : Nat} {xp : CrosschainInfo}
    {nxt64bits bits assetoshis : BitVec 64} (slot : (s.tp t).slot i = some r) (hxp : (s.vp r).xp = some xp) :
    Charged (settleDeposit c s t i r xp nxt64bits bits assetoshis) := by
  rw [settleDeposit_eq]
  have hkept (t' : Text) (vout : Int) (hp : PendingAt s t' vout) :
      PendingAt ((s.modifyTp t (setMark bits)).modifyXp r (settledXp bits assetoshis)) t' vout := by
    have hmark : PendingAt (s.modifyTp t (setMark bits)) t' vout :=
      hp.of_shape (.of_setMark t bits) fun q xp xp' h h' hpend => by
        obtain rfl := Option.some.inj (h.symm.trans h')
        exact hpend
    exact hmark.modifyXp (fun _ => by rfl) fun xp _ => pending_or_one xp.nxt.pending
  by_cases hzero : xp.nxt.pending = 0
  · refine hs.of_charge t i ?_ rfl (.inr ⟨by rw [if_pos hzero], ?_⟩) hkept
    · rintro ⟨j, q, xp', hv, hslot, hxp', hpend⟩
      obtain rfl : i = j := by omega
      obtain rfl := Option.some.inj (slot.symm.trans hslot)
      obtain rfl := Option.some.inj (hxp.symm.trans hxp')
      exact hpend hzero
    · refine ⟨i, r, settledXp bits assetoshis xp, rfl, ?_, xp_modifyXp_self (by exact hxp), pending_or_one _⟩
      exact (slot_setMark t i).trans slot
  · refine hs.of_same (fun t' vout => ?_) hkept
    unfold charges
    rw [if_neg hzero, List.append_nil]

/-- **Acts keep charged outputs pending**, on a node with a daemon. -/
theorem Act.charged (hdaemon : c.daemon) (h : Act c settledRules s s') (hwf : s.WF) (hs : Charged s) : Charged s' := by
  cases h with
  | frame h =>
    refine hs.of_same (charges_of_frame h) fun t vout hp => hp.of_shape (.of_frame h) fun r xp xp' hxp hxp' hpend => ?_
    rw [h.xp, hxp] at hxp'
    obtain rfl := Option.some.inj hxp'
    exact hpend
  | clear t n h => exact clear_charged hs n h
  | output t isconfirmed am o known null room h => exact seeOutput_charged hwf hs isconfirmed am known null room
  | mark t bits known h =>
    refine hs.of_same (fun _ _ => rfl) fun t' vout hp => hp.of_shape
      (.of_setMark t bits) fun r xp xp' hxp hxp' hpend => ?_
    obtain rfl := Option.some.inj (hxp.symm.trans hxp')
    exact hpend
  | link r bits =>
    exact hs.of_same (fun _ _ => rfl) fun t vout hp => hp.modifyXp (fun _ => by rfl) fun _ h => by exact h
  | charge t vout nxtAddr value h => exact absurd hdaemon h
  | settle t i r xp nxt64bits bits assetoshis known slot hxp h => exact settleDeposit_charged hs slot hxp
  | issue r xp txid listed hxp assigned funded h =>
    rw [issueTransfer_eq]
    refine hs.of_same (fun t vout => ?_) fun t vout hp => ?_
    · show (s.calls ++ [Call.issueTransferAsset _ _ _ _ _ _]).count _ = _
      rw [List.count_append]
      simp [charges]
    · have hmark : PendingAt (s.modifyTp (s.vp r).parent (setMark txid)) t vout :=
        hp.of_shape (.of_setMark _ txid) fun q xp xp' h h' hpend => by
          obtain rfl := Option.some.inj (h.symm.trans h')
          exact hpend
      refine hmark.modifyXp (r := r) (f := issuedXp txid) (fun _ => by rfl) fun xp hpend => ?_
      unfold issuedXp
      dsimp only
      split
      · exact pending_or_one _
      · exact hpend
  | confirm r xp hxp h =>
    exact hs.of_same (fun _ _ => rfl) fun t vout hp => hp.modifyXp (fun _ => by rfl) fun _ h => by exact h
  | bind nxtAddr msig h => exact hs

theorem Acts.charged (hdaemon : c.daemon) (h : Acts c settledRules s s') (hwf : s.WF) (hs : Charged s) :
    Charged s' := by
  induction h with
  | refl => exact hs
  | tail hacts h ih => exact h.charged hdaemon (Acts.wf hacts hwf) ih

end Once

/-- A scan that reads outputs meets a transaction without pending deposits. -/
def MeetsSettled (lps : Replicas) : Step → Prop
  | .scan coinid txid _ decoded =>
    (∃ json, decoded = some json ∧ (getObjectItem json "vout".toList).isSome) →
      NonePending (lps coinid) (Hashtable.storeKey maxCointxidLen txid)
  | _ => True

section Runs
variable {render : Text → Text} {satoshis : Text → BitVec 64} {gp : GatewayInfo} {es : List Step} {lps : Replicas}

/-- **An output is charged at most once** in every run whose scans meet settled transactions. -/
theorem charged_once (hok : Run.Along (step render satoshis gp) MeetsSettled init es)
    (hrun : Run.run (step render satoshis gp) init es = some lps) {k : Nat} (hdaemon : (gp.coin k).daemon)
    (t : Text) (vout : Int) : charges (lps k) t vout ≤ 1 := by
  have hallowed : Run.Along (step render satoshis gp) (Allowed satoshis gp fun _ => settledRules) init es := by
    refine Run.along_mono (fun lps e h => ?_) hok
    cases e with
    | scan coinid txid k decoded =>
      intro json vouts hjson hvouts
      exact ⟨fun _ _ => trivial, h ⟨json, hjson, by rw [hvouts]; rfl⟩⟩
    | bind sender nxt64bits argjson => exact fun _ _ => trivial
    | assetevent | depositConfirmed | retry | transfer => trivial
  have hcharged := Acts.charged hdaemon (run_acts init_wf hallowed hrun k) (init_wf k) charged_init
  rcases hcharged t vout with h | ⟨h, -⟩ <;> omega

end Runs

/-- The transfer of a gateway for an output of the deposits. -/
def gatewayTransfer (vout : Text) : AssetEvent where
  sender := nxtIssuerAcct
  receiver := "3".toList
  txid := "9".toList
  assetid := assetidStr 4
  assetoshis := 5#64
  comment := some ("\x7b\"crosschain\":\"DOGE\",\"cointxid\":\"t1\",\"vout\":".toList ++ vout ++ "\x7d".toList)
  positive := toInt_five_pos
  txid_ne := calcNxt64bits_nine_ne

/-- The transfer is seen before its deposit. -/
def transferFirst : List Step := [bindStep, .assetevent (gatewayTransfer "0".toList) true, scanStep]

theorem charged_once_transferFirst :
    ∃ lps, Run.run (step id wholeCoins (smallGateway 0)) init transferFirst = some lps ∧
      charges (lps 4) "t1".toList 0 ≤ 1 := by
  have hrun : (Run.run (step id wholeCoins (smallGateway 0)) init transferFirst).isSome := by decide +kernel
  obtain ⟨lps, hlps⟩ := Option.isSome_iff_exists.mp hrun
  refine ⟨lps, hlps, charged_once ?_ hlps (by decide) _ _⟩
  refine ⟨trivial, fun lps₁ h₁ => ⟨trivial, fun lps₂ h₂ => ⟨fun _ i r xp hslot => ?_, fun lps₃ _ => trivial⟩⟩⟩
  have hvouts : ((Run.run (step id wholeCoins (smallGateway 0)) init (transferFirst.take 2)).map fun lps =>
      ((lps 4).tp (Hashtable.storeKey maxCointxidLen "t1".toList)).vouts) = some none := by decide +kernel
  have hmid : Run.run (step id wholeCoins (smallGateway 0)) init (transferFirst.take 2) = some lps₂ := by
    simp only [transferFirst, List.take_succ_cons, List.take_zero, Run.run_cons, h₁, Option.bind_some, h₂, Run.run_nil]
  rw [hmid, Option.map_some, Option.some.injEq] at hvouts
  rw [CoinTxid.slot, hvouts] at hslot
  cases hslot

theorem not_forall_charged_once :
    ¬ ∀ (render : Text → Text) (satoshis : Text → BitVec 64) (gp : GatewayInfo) (es : List Step) (lps : Replicas),
      Run.run (step render satoshis gp) init es = some lps → ∀ k, (gp.coin k).daemon →
      ∀ (t : Text) (vout : Int), charges (lps k) t vout ≤ 1 := by
  intro h
  have hrun : ((Run.run (step id wholeCoins (smallGateway 0)) init (transferFirst ++ [scanStep])).map
      fun lps => charges (lps 4) "t1".toList 0) = some 2 := by decide +kernel
  obtain ⟨lps, hlps, htwo⟩ := Option.map_eq_some_iff.mp hrun
  have hle := h id wholeCoins (smallGateway 0) _ lps hlps 4 (by decide) "t1".toList 0
  rw [htwo] at hle
  exact absurd hle (by decide)

/-! ## Postings -/

/-- An update of the total of a coin and of the account with the key. -/
structure Posting where
  key : Text
  type : BalanceType
  value : BitVec 64

def BalanceInfo.post (bp : BalanceInfo) (ps : List Posting) : BalanceInfo :=
  ps.foldl (fun bp p => bp.update p.type p.value) bp

def postedTotal (type : BalanceType) (ps : List Posting) : BitVec 64 :=
  ((ps.filter fun p => p.type = type).map Posting.value).sum

/-- The totals that the gateways compare. -/
structure SameFunds (bp bp' : BalanceInfo) : Prop where
  deposits : bp'.deposits = bp.deposits
  transfers : bp'.transfers = bp.transfers
  remainingTransfers : bp'.remainingTransfers = bp.remainingTransfers

section Postings
variable {bp : BalanceInfo} {type : BalanceType} {p : Posting} {ps ps' : List Posting}

theorem postedTotal_cons :
    postedTotal type (p :: ps) = (if p.type = type then p.value else 0#64) + postedTotal type ps := by
  unfold postedTotal
  by_cases h : p.type = type <;> simp [h]

theorem postedTotal_append : postedTotal type (ps ++ ps') = postedTotal type ps + postedTotal type ps' := by
  unfold postedTotal
  rw [List.filter_append, List.map_append, List.sum_append]

/-- **A list of updates adds what is posted.** -/
theorem BalanceInfo.total_post (type : BalanceType) :
    (bp.post ps).total type = bp.total type + postedTotal type ps := by
  induction ps generalizing bp with
  | nil => simp [BalanceInfo.post, postedTotal]
  | cons p ps ih =>
    show ((bp.update p.type p.value).post ps).total type = _
    rw [ih, BalanceInfo.total_update, postedTotal_cons, BitVec.add_assoc]
    simp only [eq_comm]
    rfl

theorem deposits_post : (bp.post ps).deposits = bp.deposits + postedTotal .deposit ps :=
  BalanceInfo.total_post .deposit

theorem transfers_post : (bp.post ps).transfers = bp.transfers + postedTotal .depositTransfer ps :=
  BalanceInfo.total_post .depositTransfer

theorem remainingTransfers_post (h : ps ≠ []) :
    (bp.post ps).remainingTransfers = (bp.post ps).deposits - (bp.post ps).transfers := by
  rw [← List.dropLast_append_getLast h]
  unfold BalanceInfo.post
  rw [List.foldl_append]
  exact (BalanceInfo.update_recalculated _ _ _).remainingTransfers

/-- Two lists of updates with the same deposits differ by their transfers. -/
theorem sameFunds_post_iff (h : ps ≠ []) (h' : ps' ≠ []) (hdep : postedTotal .deposit ps' = postedTotal .deposit ps) :
    SameFunds (bp.post ps) (bp.post ps') ↔
      postedTotal .depositTransfer ps' = postedTotal .depositTransfer ps := by
  constructor
  · intro hsame
    have := hsame.transfers
    rw [transfers_post, transfers_post] at this
    exact add_left_cancel this
  · intro htrans
    refine ⟨?_, ?_, ?_⟩
    · rw [deposits_post, deposits_post, hdep]
    · rw [transfers_post, transfers_post, htrans]
    · rw [remainingTransfers_post h, remainingTransfers_post h', deposits_post, deposits_post, transfers_post,
        transfers_post, hdep, htrans]

end Postings

/-- The totals of the state after some updates. -/
structure Posted (c : Coin) (ps : List Posting) (s s' : Replica) : Prop where
  funds : s'.funds = s.funds.post ps
  accts : ∀ key, (s'.accts key).funds =
    if c.legal then (s.accts key).funds.post (ps.filter fun p => p.key = key) else (s.accts key).funds

namespace Posted
variable {c : Coin} {s s₁ s₂ : Replica} {ps ps' : List Posting}

theorem of_eq (hfunds : s₁.funds = s.funds) (haccts : s₁.accts = s.accts) : Posted c [] s s₁ where
  funds := hfunds
  accts key := by rw [haccts, List.filter_nil]; split <;> rfl

theorem trans (h₁ : Posted c ps s s₁) (h₂ : Posted c ps' s₁ s₂) : Posted c (ps ++ ps') s s₂ where
  funds := by
    rw [h₂.funds, h₁.funds]
    unfold BalanceInfo.post
    rw [List.foldl_append]
  accts key := by
    rw [h₂.accts, h₁.accts]
    split
    · unfold BalanceInfo.post
      rw [List.filter_append, List.foldl_append]
    · rfl

theorem update (type : BalanceType) (nxtAddr : Text) (value : BitVec 64) :
    Posted c [⟨acctKey nxtAddr, type, value⟩] s (updateBalanceInfo c s type nxtAddr value) where
  funds := rfl
  accts key := by
    rw [updateBalanceInfo_accts]
    by_cases hlegal : c.legal
    · rw [if_pos hlegal, if_pos hlegal]
      unfold Replica.modifyAcct
      by_cases hkey : key = acctKey nxtAddr
      · subst hkey
        simp [BalanceInfo.post]
      · simp [hkey, Ne.symm hkey, BalanceInfo.post]
    · rw [if_neg hlegal, if_neg hlegal]

theorem congr (h : Posted c ps s s₁) (hfunds : s₂.funds = s₁.funds) (haccts : s₂.accts = s₁.accts) :
    Posted c ps s s₂ := by
  simpa using h.trans (of_eq hfunds haccts)

end Posted

/-! ## The postings of a scan -/

/-- The account that a charge goes to. -/
def chargeKey (msig : MultisigAddr) : Text := acctKey (expandNxt64bits (calcNxt64bits msig.nxtAddr))

/-- The deposits among the outputs, with the addresses they are made to. -/
def dueDeposits (s : Replica) (isconfirmed : Nat) (os : List Output) : List (MultisigAddr × BitVec 64) :=
  os.filterMap fun o => (dueMsig s isconfirmed o).map fun msig => (msig, o.value)

/-- Deposits are credited, and charged when the transaction carries a mark. -/
def postings (mark : BitVec 64) (due : List (MultisigAddr × BitVec 64)) : List Posting :=
  due.flatMap fun d => ⟨acctKey d.1.nxtAddr, .deposit, d.2⟩ ::
    if mark = 0#64 then [] else [⟨chargeKey d.1, .depositTransfer, d.2⟩]

def amountOf (due : List (MultisigAddr × BitVec 64)) : BitVec 64 := (due.map Prod.snd).sum

section Scan
variable {satoshis : Text → BitVec 64} {c : Coin} {s s' : Replica} {t : Text} {isconfirmed : Nat}
  {am : Nat → BitVec 64}

theorem creditOutput_posted (o : Output) :
    Posted c (postings (s.tp t).nxtXferbits (dueDeposits s isconfirmed [o])) s (creditOutput c s t isconfirmed o) := by
  unfold creditOutput dueDeposits postings
  cases hdue : dueMsig s isconfirmed o with
  | none => simpa [hdue] using Posted.of_eq rfl rfl
  | some msig =>
    dsimp only
    have hcredit : Posted c _ s (depositNXTacct c s msig.nxtAddr o.value) := .update .deposit msig.nxtAddr o.value
    split
    · next h => simpa [hdue, h] using hcredit
    · next h =>
      have hcharge : Posted c _ _ (depositTransferNXTacct c (depositNXTacct c s msig.nxtAddr o.value)
          (expandNxt64bits (calcNxt64bits msig.nxtAddr)) o.value t o.vout) :=
        (Posted.update .depositTransfer (expandNxt64bits (calcNxt64bits msig.nxtAddr)) o.value).congr rfl rfl
      simpa [hdue, h, chargeKey] using hcredit.trans hcharge

theorem dueDeposits_congr (h : s'.msigs = s.msigs) (os : List Output) :
    dueDeposits s' isconfirmed os = dueDeposits s isconfirmed os := by
  unfold dueDeposits dueMsig searchMultisigAddrs
  rw [h]

theorem foldl_seeOutput_posted (os : List Output) :
    Posted c (postings (s.tp t).nxtXferbits (dueDeposits s isconfirmed os)) s
      (os.foldl (seeOutput c t isconfirmed am) s) := by
  induction os generalizing s with
  | nil => exact .of_eq rfl rfl
  | cons o os ih =>
    have hone : Posted c _ s (seeOutput c t isconfirmed am s o) := (creditOutput_posted o).congr rfl rfl
    have hrest : Posted c _ _ (os.foldl (seeOutput c t isconfirmed am) (seeOutput c t isconfirmed am s o)) := ih
    rw [nxtXferbits_seeOutput, dueDeposits_congr msigs_seeOutput] at hrest
    rw [List.foldl_cons]
    have := hone.trans hrest
    rwa [postings, postings, ← List.flatMap_append, dueDeposits, dueDeposits, ← List.filterMap_append,
      List.singleton_append] at this

theorem processVin_books {i : Nat} {txid : Text} {vout : Int} (h : processVin s t isconfirmed i txid vout = some s') :
    s'.funds = s.funds ∧ s'.accts = s.accts ∧ s'.xps = s.xps ∧ s'.msigs = s.msigs := by
  have hflag (r : Nat) : (flagInternal s t r).funds = s.funds ∧ (flagInternal s t r).accts = s.accts ∧
      (flagInternal s t r).xps = s.xps ∧ (flagInternal s t r).msigs = s.msigs := by
    unfold flagInternal
    split <;> exact ⟨rfl, rfl, rfl, rfl⟩
  rcases processVin_cases h with rfl | ⟨r, rfl | rfl⟩
  · exact ⟨rfl, rfl, rfl, rfl⟩
  · exact hflag r
  · exact hflag r

theorem vinsLoop_books {objs : List Json} {i : Nat} (h : vinsLoop t isconfirmed objs i s = some s') :
    s'.funds = s.funds ∧ s'.accts = s.accts ∧ s'.xps = s.xps ∧ s'.msigs = s.msigs := by
  refine vinsLoop_rule (fun _ => ⟨rfl, rfl, rfl, rfl⟩) (fun hfirst hrest => ?_) processVin_books h
  obtain ⟨hf, ha, hx, hm⟩ := hfirst
  obtain ⟨hf', ha', hx', hm'⟩ := hrest
  exact ⟨hf'.trans hf, ha'.trans ha, hx'.trans hx, hm'.trans hm⟩

/-- **Inputs do not touch the books.** -/
theorem processVins_books {vins : Option Json} (h : processVins s t isconfirmed vins = some s') :
    s'.funds = s.funds ∧ s'.accts = s.accts ∧ s'.xps = s.xps ∧ s'.msigs = s.msigs := by
  unfold processVins at h
  split at h
  · obtain rfl := Option.some.inj h
    exact ⟨rfl, rfl, rfl, rfl⟩
  · dsimp only at h
    split at h
    · split at h
      · obtain rfl := Option.some.inj h
        exact ⟨rfl, rfl, rfl, rfl⟩
      · exact (vinsLoop_books h :)
    · exact (vinsLoop_books h :)

/-- **The totals after a scan.** -/
theorem updateCoinValues_posted (known : (s.coinTxids t).isSome) {k : Sighting} {json vouts : Json}
    (hvouts : getObjectItem json "vout".toList = some vouts)
    (h : updateCoinValues satoshis c s t k (some json) = some s') :
    Posted c (postings (s.tp t).nxtXferbits (dueDeposits s (k.isconfirmed c) (outputs satoshis c vouts))) s s' := by
  rw [updateCoinValues_eq known, hvouts] at h
  obtain ⟨hfunds, haccts, -⟩ := processVins_books h
  have hmark : (((s.modifyTp t (resetTp k)).modifyTp t (clearSlots vouts.items.length)).tp t).nxtXferbits =
      (s.tp t).nxtXferbits := by
    rw [tp_modifyTp_proj CoinTxid.nxtXferbits (f := clearSlots vouts.items.length) fun _ => by rfl]
    exact tp_modifyTp_proj CoinTxid.nxtXferbits (f := resetTp k) (fun _ => rfl) t
  have hseen : Posted c _ _ (seeOutputs satoshis c t k (some vouts) (s.modifyTp t (resetTp k))) :=
    foldl_seeOutput_posted (outputs satoshis c vouts)
  rw [hmark] at hseen
  exact ⟨hfunds.trans hseen.funds, fun key => by rw [haccts]; exact hseen.accts key⟩

theorem scan_posted {txid : Text} (htxid : txid ≠ []) {k : Sighting} {json vouts : Json}
    (hvouts : getObjectItem json "vout".toList = some vouts) (h : scan satoshis c s txid k (some json) = some s') :
    Posted c (postings (s.tp (Hashtable.storeKey maxCointxidLen txid)).nxtXferbits
      (dueDeposits s (k.isconfirmed c) (outputs satoshis c vouts))) s s' := by
  unfold scan at h
  rw [if_neg htxid] at h
  have hseen := updateCoinValues_posted isSome_addTp_self hvouts h
  rw [tp_addTp] at hseen
  exact ⟨hseen.funds, hseen.accts⟩

/-! ## The amounts of the postings -/

theorem postings_cons (mark : BitVec 64) (d : MultisigAddr × BitVec 64) (due : List (MultisigAddr × BitVec 64)) :
    postings mark (d :: due) = postings mark [d] ++ postings mark due := by
  unfold postings
  rw [← List.flatMap_append, List.singleton_append]

theorem amountOf_cons (d : MultisigAddr × BitVec 64) (due : List (MultisigAddr × BitVec 64)) :
    amountOf (d :: due) = d.2 + amountOf due := by simp [amountOf]

theorem postedTotal_postings (mark : BitVec 64) (due : List (MultisigAddr × BitVec 64)) (p : Text → Prop)
    [DecidablePred p] :
    postedTotal .deposit ((postings mark due).filter fun q => p q.key) =
        amountOf (due.filter fun d => p (acctKey d.1.nxtAddr)) ∧
      postedTotal .depositTransfer ((postings mark due).filter fun q => p q.key) =
        if mark = 0#64 then 0#64 else amountOf (due.filter fun d => p (chargeKey d.1)) := by
  induction due with
  | nil => simp [postings, postedTotal, amountOf]
  | cons d due ih =>
    obtain ⟨hdep, htrans⟩ := ih
    rw [postings_cons, List.filter_append, postedTotal_append, postedTotal_append, hdep, htrans]
    by_cases hp : p (acctKey d.1.nxtAddr) <;> by_cases hm : mark = 0#64 <;>
      by_cases hq : p (chargeKey d.1) <;> simp [postings, hp, hm, hq, postedTotal, amountOf_cons]

end Scan

/-! ## A scan and a transfer, in both orders -/

section Orders
variable {render : Text → Text} {satoshis : Text → BitVec 64} {gp : GatewayInfo} {lps lpsA lpsB : Replicas}
  {c : Coin} {s : Replica} {ev : AssetEvent} {validaddr : Bool}

theorem redeemEvent_books (json : Json) :
    (redeemEvent c s ev json validaddr).funds = s.funds ∧ (redeemEvent c s ev json validaddr).accts = s.accts ∧
      (redeemEvent c s ev json validaddr).msigs = s.msigs := by
  unfold redeemEvent
  split
  · exact ⟨rfl, rfl, rfl⟩
  · split
    · exact ⟨rfl, rfl, rfl⟩
    · split
      · dsimp only
        split
        · exact ⟨rfl, rfl, rfl⟩
        · split <;> exact ⟨rfl, rfl, rfl⟩
      · exact ⟨rfl, rfl, rfl⟩

/-- With a daemon, a transfer leaves the totals to the scan. -/
theorem assetcommand_daemon (hdaemon : c.daemon) (render : Text → Text) (s : Replica) (ev : AssetEvent)
    (validaddr : Bool) :
    (assetcommand render c s ev validaddr).funds = s.funds ∧ (assetcommand render c s ev validaddr).accts = s.accts ∧
      (assetcommand render c s ev validaddr).msigs = s.msigs := by
  cases hcross : ev.crosschain render with
  | none =>
    rcases assetcommand_uncrossed (c := c) (s := s) hcross with ⟨-, h⟩ | ⟨json, -, -, h⟩
    · rw [h]
      exact ⟨rfl, rfl, rfl⟩
    · rw [h]
      exact redeemEvent_books json
  | some target =>
    obtain ⟨name, cointxid, vout⟩ := target
    by_cases h : convCoinstr name = some c.coinid ∧ cointxid ≠ []
    · rw [assetcommand_named hcross h.1 h.2]
      split
      · split <;> exact ⟨rfl, rfl, rfl⟩
      · rw [if_pos hdaemon]
        exact ⟨rfl, rfl, rfl⟩
    · rw [assetcommand_unnamed hcross h]
      exact ⟨rfl, rfl, rfl⟩

theorem assetcommand_mark {name cointxid : Text} {vout : Int}
    (hcross : ev.crosschain render = some (name, cointxid, vout)) (hname : convCoinstr name = some c.coinid)
    (hne : cointxid ≠ []) :
    ((assetcommand render c s ev validaddr).tp (Hashtable.storeKey maxCointxidLen cointxid)).nxtXferbits =
      calcNxt64bits ev.txid := by
  have hmark : ((markedBy s ev cointxid).tp (Hashtable.storeKey maxCointxidLen cointxid)).nxtXferbits =
      calcNxt64bits ev.txid := by
    rw [nxtXferbits_markedBy, if_pos rfl]
  rw [assetcommand_named hcross hname hne]
  split
  · split <;> exact hmark
  · split <;> exact hmark

theorem target_eq_some {k : Nat} {t : Text} {vout : Int} (h : crosschainTarget render gp ev = some (k, t, vout)) :
    eventCoin gp ev = some k ∧ ∃ name cointxid, ev.crosschain render = some (name, cointxid, vout) ∧
      convCoinstr name = some k ∧ cointxid ≠ [] ∧ Hashtable.storeKey maxCointxidLen cointxid = t := by
  unfold crosschainTarget at h
  cases hcoin : eventCoin gp ev with
  | none => simp [hcoin] at h
  | some j =>
    cases hcross : ev.crosschain render with
    | none => simp [hcoin, hcross] at h
    | some target =>
      obtain ⟨name, cointxid, vout'⟩ := target
      rw [hcoin, hcross] at h
      dsimp only at h
      split at h
      · next hfit =>
        cases h
        exact ⟨rfl, name, cointxid, rfl, hfit.1, hfit.2, rfl⟩
      · cases h

theorem step_scan {k : Nat} (hkeeps : gp.keeps k) (hdaemon : (gp.coin k).daemon) (txid : Text) (sight : Sighting)
    (decoded : Option Json) :
    step render satoshis gp lps (.scan k txid sight decoded) =
      (scan satoshis (gp.coin k) (lps k) txid sight decoded).map (Function.update lps k) := if_pos ⟨hkeeps, hdaemon⟩

theorem step_assetevent {k : Nat} (hcoin : eventCoin gp ev = some k) :
    step render satoshis gp lps (.assetevent ev validaddr) =
      some (Function.update lps k (assetcommand render (gp.coin k) (lps k) ev validaddr)) :=
  congrArg some (multigatewayAssetevent_of_some hcoin)

/-- The books of the coin and of an account after the postings of a scan with one mark or another. -/
theorem sameFunds_postings_iff {sA sB s₀ : Replica} {markA markB : BitVec 64} {due : List (MultisigAddr × BitVec 64)}
    {msig : MultisigAddr} {value : BitVec 64} (hmsig : (msig, value) ∈ due) (hmarkB : markB ≠ 0#64)
    (hA : Posted c (postings markA due) s₀ sA) (hB : Posted c (postings markB due) s₀ sB) :
    (SameFunds sA.funds sB.funds ∧
        SameFunds (sA.accts (acctKey msig.nxtAddr)).funds (sB.accts (acctKey msig.nxtAddr)).funds) ↔
      markA ≠ 0#64 ∨ (amountOf due = 0#64 ∧
        (c.legal → amountOf (due.filter fun d => chargeKey d.1 = acctKey msig.nxtAddr) = 0#64)) := by
  have hcredit (mark : BitVec 64) : (⟨acctKey msig.nxtAddr, .deposit, value⟩ : Posting) ∈ postings mark due :=
    List.mem_flatMap.mpr ⟨(msig, value), hmsig, List.mem_cons_self⟩
  have hne (mark : BitVec 64) : postings mark due ≠ [] := List.ne_nil_of_mem (hcredit mark)
  have hne' (mark : BitVec 64) : (postings mark due).filter (fun p => p.key = acctKey msig.nxtAddr) ≠ [] :=
    List.ne_nil_of_mem (List.mem_filter.mpr ⟨hcredit mark, by simp⟩)
  have hall (type : BalanceType) (mark : BitVec 64) :
      postedTotal type (postings mark due) = postedTotal type ((postings mark due).filter fun _ => True) := by simp
  have hcoin : SameFunds sA.funds sB.funds ↔ markA ≠ 0#64 ∨ amountOf due = 0#64 := by
    rw [hA.funds, hB.funds, sameFunds_post_iff (hne markA) (hne markB)]
    · rw [hall, hall, (postedTotal_postings markA due fun _ => True).2,
        (postedTotal_postings markB due fun _ => True).2, if_neg hmarkB]
      by_cases hm : markA = 0#64 <;> simp [hm]
    · rw [hall, hall, (postedTotal_postings markA due fun _ => True).1,
        (postedTotal_postings markB due fun _ => True).1]
  have hacct : SameFunds (sA.accts (acctKey msig.nxtAddr)).funds (sB.accts (acctKey msig.nxtAddr)).funds ↔
      (c.legal → markA ≠ 0#64 ∨ amountOf (due.filter fun d => chargeKey d.1 = acctKey msig.nxtAddr) = 0#64) := by
    rw [hA.accts, hB.accts]
    by_cases hlegal : c.legal
    · rw [if_pos hlegal, if_pos hlegal, sameFunds_post_iff (hne' markA) (hne' markB)]
      · rw [(postedTotal_postings markA due fun key => key = acctKey msig.nxtAddr).2,
          (postedTotal_postings markB due fun key => key = acctKey msig.nxtAddr).2, if_neg hmarkB]
        by_cases hm : markA = 0#64 <;> simp [hm, hlegal]
      · rw [(postedTotal_postings markA due fun key => key = acctKey msig.nxtAddr).1,
          (postedTotal_postings markB due fun key => key = acctKey msig.nxtAddr).1]
    · rw [if_neg hlegal, if_neg hlegal]
      exact iff_of_true ⟨rfl, rfl, rfl⟩ fun h => absurd h hlegal
  rw [hcoin, hacct]
  by_cases hm : markA = 0#64
  · simp only [hm, ne_eq, not_true_eq_false, false_or]
  · exact iff_of_true ⟨.inl hm, fun _ => .inl hm⟩ (.inl hm)

/-- **The order of a scan and of a transfer for one of its deposits** does not show in the books of the coin and of
the depositor exactly when the transaction carried a mark before, or its charges come to nothing. -/
theorem orders_agree_iff {k : Nat} {txid : Text} {sight : Sighting} {json vouts : Json} {o : Output}
    {msig : MultisigAddr} (hdaemon : (gp.coin k).daemon) (htxid : txid ≠ [])
    (hvouts : getObjectItem json "vout".toList = some vouts)
    (ho : o ∈ outputs satoshis (gp.coin k) vouts) (hbound : searchMultisigAddrs (lps k) o.coinaddr = some msig)
    (hconfirmed : sight.isconfirmed (gp.coin k) ≠ 0)
    (htarget : crosschainTarget render gp ev = some (k, Hashtable.storeKey maxCointxidLen txid, (o.vout : Int)))
    (hA : Run.run (step render satoshis gp) lps [.scan k txid sight (some json), .assetevent ev validaddr] = some lpsA)
    (hB : Run.run (step render satoshis gp) lps [.assetevent ev validaddr, .scan k txid sight (some json)] =
      some lpsB) :
    (SameFunds (lpsA k).funds (lpsB k).funds ∧
        SameFunds ((lpsA k).accts (acctKey msig.nxtAddr)).funds ((lpsB k).accts (acctKey msig.nxtAddr)).funds) ↔
      ((lps k).tp (Hashtable.storeKey maxCointxidLen txid)).nxtXferbits ≠ 0#64 ∨
        (amountOf (dueDeposits (lps k) (sight.isconfirmed (gp.coin k)) (outputs satoshis (gp.coin k) vouts)) = 0#64 ∧
          ((gp.coin k).legal → amountOf ((dueDeposits (lps k) (sight.isconfirmed (gp.coin k))
            (outputs satoshis (gp.coin k) vouts)).filter fun d => chargeKey d.1 = acctKey msig.nxtAddr) = 0#64)) := by
  obtain ⟨hcoin, name, cointxid, hcross, hname, hne, hkey⟩ := target_eq_some htarget
  have hkeeps := (Option.filter_eq_some_iff.mp hcoin).2
  have hmem : (msig, o.value) ∈ dueDeposits (lps k) (sight.isconfirmed (gp.coin k))
      (outputs satoshis (gp.coin k) vouts) :=
    List.mem_filterMap.mpr ⟨o, ho, by simp [dueMsig, hconfirmed, hbound]⟩
  simp only [Run.run_cons, Run.run_nil, step_scan hkeeps hdaemon, step_assetevent hcoin, Option.bind_some,
    Function.update_self] at hA hB
  -- the scan first: the transfer leaves its totals
  obtain ⟨mid, hmid, hlast⟩ := Option.bind_eq_some_iff.mp hA
  obtain ⟨sA, hscanA, rfl⟩ := Option.map_eq_some_iff.mp hmid
  obtain rfl := Option.some.inj hlast
  have hpostedA := scan_posted htxid hvouts hscanA
  obtain ⟨hfundsA, hacctsA, -⟩ := assetcommand_daemon hdaemon render sA ev validaddr
  -- the transfer first: the scan finds its mark
  obtain ⟨mid, hmid, hlast⟩ := Option.bind_eq_some_iff.mp hB
  obtain ⟨sB, hscanB, rfl⟩ := Option.map_eq_some_iff.mp hmid
  obtain rfl := Option.some.inj hlast
  obtain ⟨hfundsB, hacctsB, hmsigsB⟩ := assetcommand_daemon hdaemon render (lps k) ev validaddr
  have hpostedB := scan_posted htxid hvouts hscanB
  rw [← hkey, assetcommand_mark hcross hname hne, dueDeposits_congr hmsigsB] at hpostedB
  simp only [Function.update_self]
  refine sameFunds_postings_iff hmem ev.txid_ne (hpostedA.congr hfundsA hacctsA) ?_
  exact ⟨by rw [hpostedB.funds, hfundsB], fun key => by rw [hpostedB.accts, hacctsB]⟩

end Orders

/-- The state of gateway `0` once the account `3` is bound. -/
def afterBind : Replicas := (Run.run (step id wholeCoins (smallGateway 0)) init [bindStep]).getD init

theorem run_afterBind : Run.run (step id wholeCoins (smallGateway 0)) init [bindStep] = some afterBind :=
  Run.run_getD (by decide +kernel) init

/-- The outputs of the transaction of the deposits. -/
def depositVouts : Json :=
  .array [voutJson "0".toList "5".toList "A".toList, voutJson "1".toList "7".toList "A".toList]

def firstOutput : Output := ⟨0, 500000000#64, "A".toList, "76".toList, 0⟩

def boundAddr : MultisigAddr := ⟨"3".toList, "A".toList, "52".toList, List.replicate 3 {}, 2, 3, 4⟩

/-- Both orders end, and only the scan that finds the mark books the transfers. -/
theorem orders_afterBind :
    ∃ lpsA lpsB,
      Run.run (step id wholeCoins (smallGateway 0)) afterBind
        [scanStep, .assetevent (gatewayTransfer "0".toList) true] = some lpsA ∧
      Run.run (step id wholeCoins (smallGateway 0)) afterBind
        [.assetevent (gatewayTransfer "0".toList) true, scanStep] = some lpsB ∧
      (lpsA 4).funds.transfers = 0#64 ∧ (lpsB 4).funds.transfers = 1200000000#64 := by
  have hA : ((Run.run (step id wholeCoins (smallGateway 0)) afterBind
      [scanStep, .assetevent (gatewayTransfer "0".toList) true]).map fun lps => (lps 4).funds.transfers) =
      some 0#64 := by decide +kernel
  have hB : ((Run.run (step id wholeCoins (smallGateway 0)) afterBind
      [.assetevent (gatewayTransfer "0".toList) true, scanStep]).map fun lps => (lps 4).funds.transfers) =
      some 1200000000#64 := by decide +kernel
  obtain ⟨lpsA, hlpsA, htransfersA⟩ := Option.map_eq_some_iff.mp hA
  obtain ⟨lpsB, hlpsB, htransfersB⟩ := Option.map_eq_some_iff.mp hB
  exact ⟨lpsA, lpsB, hlpsA, hlpsB, htransfersA, htransfersB⟩

theorem boundAddr_afterBind : searchMultisigAddrs (afterBind 4) firstOutput.coinaddr = some boundAddr := by
  decide +kernel

theorem firstOutput_mem : firstOutput ∈ outputs wholeCoins ((smallGateway 0).coin 4) depositVouts := by
  decide +kernel

/-- Both orders end, with different books. -/
theorem orders_differ_afterBind :
    ∃ lpsA lpsB,
      Run.run (step id wholeCoins (smallGateway 0)) afterBind
        [scanStep, .assetevent (gatewayTransfer "0".toList) true] = some lpsA ∧
      Run.run (step id wholeCoins (smallGateway 0)) afterBind
        [.assetevent (gatewayTransfer "0".toList) true, scanStep] = some lpsB ∧
      ¬ (SameFunds (lpsA 4).funds (lpsB 4).funds ∧
        SameFunds ((lpsA 4).accts (acctKey "3".toList)).funds ((lpsB 4).accts (acctKey "3".toList)).funds) := by
  obtain ⟨lpsA, lpsB, hlpsA, hlpsB, -, -⟩ := orders_afterBind
  have hvouts : getObjectItem depositTx "vout".toList = some depositVouts := by rfl
  have hiff := orders_agree_iff (by decide) (by decide) hvouts firstOutput_mem boundAddr_afterBind (by decide)
    (by decide +kernel) hlpsA hlpsB
  exact ⟨lpsA, lpsB, hlpsA, hlpsB, hiff.not.mpr (by decide +kernel)⟩

theorem not_forall_orders_agree :
    ¬ ∀ (render : Text → Text) (satoshis : Text → BitVec 64) (gp : GatewayInfo) (lps lpsA lpsB : Replicas),
      Reachable render satoshis gp lps → ∀ (k : Nat) (txid : Text) (sight : Sighting) (json vouts : Json) (o : Output)
        (msig : MultisigAddr) (ev : AssetEvent) (validaddr : Bool),
      (gp.coin k).daemon → getObjectItem json "vout".toList = some vouts → o ∈ outputs satoshis (gp.coin k) vouts →
      searchMultisigAddrs (lps k) o.coinaddr = some msig → sight.isconfirmed (gp.coin k) ≠ 0 →
      ((lps k).tp (Hashtable.storeKey maxCointxidLen txid)).slot o.vout = none →
      isGatewayAddr ev.sender → crosschainTarget render gp ev =
        some (k, Hashtable.storeKey maxCointxidLen txid, (o.vout : Int)) →
      Run.run (step render satoshis gp) lps [.scan k txid sight (some json), .assetevent ev validaddr] = some lpsA →
      Run.run (step render satoshis gp) lps [.assetevent ev validaddr, .scan k txid sight (some json)] = some lpsB →
      SameFunds (lpsA k).funds (lpsB k).funds := by
  intro h
  obtain ⟨lpsA, lpsB, hlpsA, hlpsB, htransfersA, htransfersB⟩ := orders_afterBind
  have hsame := h id wholeCoins (smallGateway 0) afterBind lpsA lpsB ⟨_, run_afterBind⟩ 4 "t1".toList historical
    depositTx depositVouts firstOutput boundAddr (gatewayTransfer "0".toList) true (by decide) (by rfl)
    firstOutput_mem boundAddr_afterBind (by decide) (by decide +kernel) (by decide +kernel)
    (by decide +kernel) hlpsA hlpsB
  have htransfers := hsame.transfers
  rw [htransfersA, htransfersB] at htransfers
  exact absurd htransfers (by decide)

end NXTServices.Gateway
