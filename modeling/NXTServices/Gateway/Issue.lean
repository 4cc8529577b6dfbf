import NXTServices.Gateway.Handlers
import Mathlib.Algebra.BigOperators.Fin
import Mathlib.Data.List.Find

/-!
# Transfers that the gateways issue

* `Clean` : a deposit of a transaction without a mark is as the scan made it;
* `Paid` : what a gateway has issued;
* `payments_once` : over three gateways, an output is paid at most once, by its own gateway, and in full;
* `issued_iff_first` : which outputs a pass pays when every transfer succeeds.
-/

namespace NXTServices.Gateway
open Json

/-! ## Deposits without a mark -/

/-- `mark` is the `NXTxferbits` of the transaction. -/
structure CleanXp (mark : BitVec 64) (xp : CrosschainInfo) : Prop where
  mask : xp.nxtXfermask = 1
  unmarked : mark = 0#64 → xp.nxt.pending = 0 ∧ xp.nxt.confirmed = 0 ∧ xp.assetoshis = xp.value

theorem CleanXp.of_marked {mark : BitVec 64} {xp : CrosschainInfo} (hmask : xp.nxtXfermask = 1)
    (h : mark ≠ 0#64) : CleanXp mark xp := ⟨hmask, fun h' => absurd h' h⟩

def Replica.Clean (s : Replica) : Prop :=
  ∀ r xp, (s.vp r).xp = some xp → CleanXp (s.tp (s.vp r).parent).nxtXferbits xp

section Clean
variable {c : Coin} {R : Rules} {s s' : Replica}

theorem clean_init : Replica.Clean {} := by
  intro r xp h
  simp [Replica.vp] at h

theorem newDeposit_clean (t : Text) (isconfirmed : Nat) (o : Output) (am : BitVec 64) :
    CleanXp (s.tp t).nxtXferbits (newDeposit c s t isconfirmed o am) := by
  refine ⟨rfl, fun hm => ?_⟩
  unfold newDeposit newNXT
  cases dueMsig s isconfirmed o <;> simp [hm]

theorem Frame.clean (h : Frame s s') (hs : s.Clean) : s'.Clean := by
  intro q xp hxp
  rw [h.xp] at hxp
  rw [(h.place q (by simp [hxp])).1, h.mark]
  exact hs q xp hxp

theorem seeOutput_clean (hs : s.Clean) (t : Text) (isconfirmed : Nat) (am : Nat → BitVec 64) (o : Output) :
    (seeOutput c t isconfirmed am s o).Clean := by
  intro q xp hxp
  rw [nxtXferbits_seeOutput]
  rw [vp_seeOutput] at hxp ⊢
  by_cases hq : q = s.values.next
  · rw [if_pos hq] at hxp ⊢
    obtain rfl := Option.some.inj hxp
    exact newDeposit_clean ..
  · rw [if_neg hq] at hxp ⊢
    exact hs q xp hxp

theorem setMark_clean (hs : s.Clean) {t : Text} {bits : BitVec 64} (known : (s.coinTxids t).isSome)
    (h : bits ≠ 0#64) : (s.modifyTp t (setMark bits)).Clean := by
  intro q xp hxp
  rw [vp_modifyTp] at hxp ⊢
  rw [nxtXferbits_setMark known]
  split
  · exact .of_marked (hs q xp hxp).mask h
  · exact hs q xp hxp

theorem modifyXp_clean (hs : s.Clean) {r : Nat} {f : CrosschainInfo → CrosschainInfo}
    (h : ∀ xp, (s.vp r).xp = some xp → CleanXp (s.tp (s.vp r).parent).nxtXferbits (f xp)) :
    (s.modifyXp r f).Clean := by
  intro q xp hxp
  rw [parent_modifyXp, tp_modifyXp]
  rw [xp_modifyXp] at hxp
  split at hxp
  · next hq =>
    subst hq
    obtain ⟨xp₀, hxp₀, rfl⟩ := Option.map_eq_some_iff.mp hxp
    exact h xp₀ hxp₀
  · exact hs q xp hxp

theorem settleDeposit_clean (hwf : s.WF) (hs : s.Clean) {t : Text} {i r : Nat} {xp : CrosschainInfo}
    {nxt64bits bits assetoshis : BitVec 64} (known : (s.coinTxids t).isSome)
    (slot : (s.tp t).slot i = some r) (h : bits ≠ 0#64) :
    (settleDeposit c s t i r xp nxt64bits bits assetoshis).Clean := by
  have hmarked := setMark_clean hs known h
  rw [settleDeposit_eq]
  have := modifyXp_clean hmarked (r := r) (f := settledXp bits assetoshis) fun xp₀ hxp₀ =>
    .of_marked (hmarked r xp₀ hxp₀).mask (by
      rw [nxtXferbits_setMark known, vp_modifyTp, (hwf.slot t i r slot).2.1, if_pos rfl]
      exact h)
  exact this

theorem issueTransfer_clean (hwf : s.WF) (hs : s.Clean) {r : Nat} {xp : CrosschainInfo} (txid : BitVec 64)
    (hxp : (s.vp r).xp = some xp) (h : (s.tp (s.vp r).parent).nxtXferbits = 0#64) :
    (issueTransfer c s r xp txid).Clean := by
  have known := (hwf.made r (by simp [hxp])).2
  rw [issueTransfer_eq]
  by_cases htx : txid = 0#64
  · subst htx
    have hmarked : (s.modifyTp (s.vp r).parent (setMark 0#64)).Clean := by
      intro q xp' hxp'
      rw [vp_modifyTp] at hxp' ⊢
      rw [nxtXferbits_setMark known]
      split
      · next hq =>
        have := hs q xp' hxp'
        rwa [hq, h] at this
      · exact hs q xp' hxp'
    exact modifyXp_clean hmarked fun xp₀ hxp₀ => ⟨(hmarked r xp₀ hxp₀).mask, (hmarked r xp₀ hxp₀).unmarked⟩
  · have hmarked := setMark_clean hs known htx
    exact modifyXp_clean hmarked fun xp₀ hxp₀ => .of_marked (hmarked r xp₀ hxp₀).mask (by
      rw [nxtXferbits_setMark known, vp_modifyTp, if_pos rfl]
      exact htx)

/-- **Acts keep unmarked deposits clean.** -/
theorem Act.clean (h : Act c R s s') (hwf : s.WF) (hs : s.Clean) : s'.Clean := by
  cases h with
  | frame h => exact h.clean hs
  | clear t n h =>
    intro q xp hxp
    rw [vp_modifyTp, tp_modifyTp_proj CoinTxid.nxtXferbits (f := clearSlots n) fun _ => by rfl]
    exact hs q xp hxp
  | output t isconfirmed am o known null room h => exact seeOutput_clean hs _ _ _ _
  | mark t bits known h => exact setMark_clean hs known h
  | link r bits => exact modifyXp_clean hs fun xp hxp => ⟨(hs r xp hxp).mask, (hs r xp hxp).unmarked⟩
  | charge t vout nxtAddr value h => exact hs
  | settle t i r xp nxt64bits bits assetoshis known slot hxp h => exact settleDeposit_clean hwf hs known slot h
  | issue r xp txid listed hxp assigned funded h => exact issueTransfer_clean hwf hs txid hxp h
  | confirm r xp hxp h =>
    refine modifyXp_clean hs fun xp₀ hxp₀ => .of_marked (hs r xp₀ hxp₀).mask fun hm => h ?_
    exact ((hs r xp hxp).unmarked hm).1
  | bind nxtAddr msig h => exact hs

theorem Acts.clean (h : Acts c R s s') (hwf : s.WF) (hs : s.Clean) : s'.Clean := by
  induction h with
  | refl => exact hs
  | tail hacts h ih => exact h.clean (Acts.wf hacts hwf) ih

end Clean

/-! ## What is issued -/

/-- A transfer of an asset that succeeded, for an output. -/
structure Payment where
  cointxid : Text
  vout : Nat
  nxtAddr : Text
  assetoshis : BitVec 64
deriving DecidableEq

def Call.payment : Call → Option Payment
  | .issueTransferAsset cointxid vout nxtAddr _ assetoshis txid =>
    if txid = 0#64 then none else some ⟨cointxid, vout, nxtAddr, assetoshis⟩
  | .depositTransfer .. | .withdrawreq .. => none

def payments (s : Replica) : List Payment := s.calls.filterMap Call.payment

/-- The outputs of the coin, by transaction and number, with their value and address, and the accounts
that addresses are bound to. -/
structure Chain where
  output : Text → Nat → BitVec 64 → Text → Prop
  owner : Text → Text

/-- Scans see the chain, and bindings are those of the owners. -/
def Chain.rules (chain : Chain) : Rules where
  output t o := chain.output t o.vout o.value o.coinaddr
  bind msig := msig.nxtAddr = chain.owner msig.multisigaddr

/-- A payment is its output's value, by the gateway of its owner. -/
def Chain.Due (chain : Chain) (c : Coin) (p : Payment) : Prop :=
  ∃ addr, chain.output p.cointxid p.vout p.assetoshis addr ∧ assigned c (calcNxt64bits (chain.owner addr))

/-- Listed deposits are outputs of the chain, with their owner. -/
structure Listed (chain : Chain) (s : Replica) : Prop where
  bound : ∀ msig ∈ s.msigs, msig.nxtAddr = chain.owner msig.multisigaddr
  listed : ∀ r ∈ s.xps, ∀ xp, (s.vp r).xp = some xp → ∃ addr,
    chain.output (s.vp r).parent (s.vp r).parentVout xp.value addr ∧
      xp.nxt64bits = calcNxt64bits (chain.owner addr)

/-- The payments of a gateway: one for a transaction at most, whose mark shows it. -/
structure Paid (chain : Chain) (c : Coin) (s : Replica) : Prop where
  marked : ∀ p ∈ payments s, (s.tp p.cointxid).nxtXferbits ≠ 0#64
  once : ((payments s).map Payment.cointxid).Nodup
  due : ∀ p ∈ payments s, chain.Due c p

section Issue
variable {chain : Chain} {c : Coin} {R : Rules} {s s' : Replica}

theorem calls_seeOutput (t : Text) (isconfirmed : Nat) (am : Nat → BitVec 64) (o : Output) :
    (seeOutput c t isconfirmed am s o).calls = s.calls ++
      if (dueMsig s isconfirmed o).isSome ∧ (s.tp t).nxtXferbits ≠ 0#64 then [.depositTransfer t o.vout] else [] := by
  show (creditOutput c s t isconfirmed o).calls = _
  unfold creditOutput
  cases dueMsig s isconfirmed o with
  | none => simp
  | some msig =>
    by_cases h : (s.tp t).nxtXferbits = 0#64
    · simp [h, depositNXTacct]
    · simp [h, depositNXTacct, depositTransferNXTacct]

/-- **Once marked, a transaction stays marked.** -/
theorem Act.marked (h : Act c R s s') (hwf : s.WF) {t : Text} (ht : (s.tp t).nxtXferbits ≠ 0#64) :
    (s'.tp t).nxtXferbits ≠ 0#64 := by
  cases h with
  | frame h => rwa [h.mark]
  | clear t' n h => rwa [tp_modifyTp_proj CoinTxid.nxtXferbits (f := clearSlots n) fun _ => by rfl]
  | output t' isconfirmed am o known null room h => rwa [nxtXferbits_seeOutput]
  | mark t' bits known h =>
    show ((s.modifyTp t' (setMark bits)).tp t).nxtXferbits ≠ _
    rw [nxtXferbits_setMark known]
    split <;> assumption
  | link r bits => exact ht
  | charge t' vout nxtAddr value h => exact ht
  | settle t' i r xp nxt64bits bits assetoshis known slot hxp h =>
    rw [settleDeposit_eq]
    show ((s.modifyTp t' (setMark bits)).tp t).nxtXferbits ≠ _
    rw [nxtXferbits_setMark known]
    split <;> assumption
  | issue r xp txid listed hxp assigned funded h =>
    rw [issueTransfer_eq]
    show ((s.modifyTp (s.vp r).parent (setMark txid)).tp t).nxtXferbits ≠ _
    rw [nxtXferbits_setMark (hwf.made r (by simp [hxp])).2, if_neg]
    · exact ht
    · rintro rfl
      exact ht h
  | confirm r xp hxp h => exact ht
  | bind nxtAddr msig h => exact ht

theorem legal_of_funded {mode : Bool} {nxtAddr : Text} {value : BitVec 64}
    (h : 0 < balanceVerification c s mode nxtAddr value) : c.legal := by
  by_contra hlegal
  have hnone : getCoinAcct c s nxtAddr = none := if_neg hlegal
  simp only [balanceVerification, hnone] at h
  split at h <;> omega

/-- What an act adds to the payments. -/
theorem Act.payments_cases (h : Act c R s s') :
    payments s' = payments s ∨ ∃ r xp txid, r ∈ s.xps ∧ (s.vp r).xp = some xp ∧ assigned c xp.nxt64bits ∧ c.legal ∧
      (s.tp (s.vp r).parent).nxtXferbits = 0#64 ∧ txid ≠ 0#64 ∧ s' = issueTransfer c s r xp txid ∧
      payments s' = payments s ++
        [⟨(s.vp r).parent, (s.vp r).parentVout, expandNxt64bits xp.nxt64bits, xp.assetoshis⟩] := by
  have hsame {s₁ : Replica} {calls : List Call} (h : s₁.calls = s.calls ++ calls)
      (hnone : calls.filterMap Call.payment = []) : payments s₁ = payments s := by
    unfold payments
    rw [h, List.filterMap_append, hnone, List.append_nil]
  cases h with
  | frame h =>
    obtain ⟨wps, hcalls⟩ := h.calls
    refine .inl (hsame hcalls ?_)
    rw [List.filterMap_map]
    exact List.filterMap_eq_nil_iff.mpr fun _ _ => rfl
  | output t isconfirmed am o known null room h =>
    exact .inl (hsame (calls_seeOutput t isconfirmed am o) (by split <;> rfl))
  | charge t vout nxtAddr value h => exact .inl (hsame rfl rfl)
  | settle t i r xp nxt64bits bits assetoshis known slot hxp h =>
    exact .inl (hsame (by rw [settleDeposit_eq]) (by split <;> rfl))
  | issue r xp txid listed hxp assigned funded h =>
    by_cases htx : txid = 0#64
    · exact .inl (hsame (by rw [issueTransfer_eq]; rfl) (by simp [Call.payment, htx]))
    · refine .inr ⟨r, xp, txid, listed, hxp, assigned, legal_of_funded funded, h, htx, rfl, ?_⟩
      unfold payments
      rw [issueTransfer_eq, Replica.log_calls, List.filterMap_append]
      simp [Call.payment, htx]
      rfl
  | clear t n h => exact .inl rfl
  | mark t bits known h => exact .inl rfl
  | link r bits => exact .inl rfl
  | confirm r xp hxp h => exact .inl rfl
  | bind nxtAddr msig h => exact .inl rfl

theorem Act.msigs (h : Act c R s s') : s'.msigs = s.msigs ∨ ∃ msig, R.bind msig ∧ s'.msigs = s.msigs ++ [msig] := by
  cases h with
  | frame h => exact .inl h.msigs
  | output t isconfirmed am o known null room h => exact .inl msigs_seeOutput
  | settle t i r xp nxt64bits bits assetoshis known slot hxp h =>
    exact .inl (by rw [settleDeposit_eq]; rfl)
  | bind nxtAddr msig h => exact .inr ⟨msig, h, rfl⟩
  | clear | mark | link | charge | issue | confirm => exact .inl rfl

theorem Act.bound_forall {P : MultisigAddr → Prop} (h : Act c R s s') (hbind : ∀ msig, R.bind msig → P msig)
    (hs : ∀ msig ∈ s.msigs, P msig) : ∀ msig ∈ s'.msigs, P msig := by
  intro m hm
  rcases h.msigs with h | ⟨msig, hmsig, h⟩
  · rw [h] at hm
    exact hs m hm
  · rw [h] at hm
    rcases List.mem_append.mp hm with hm | hm
    · exact hs m hm
    · obtain rfl := List.mem_singleton.mp hm
      exact hbind m hmsig

/-- What every new deposit to a bound address meets, and is about its fixed part, every listed deposit meets. -/
theorem Act.listed_forall {P : Text → Nat → CrosschainInfo → Prop} (h : Act c R s s') (hwf : s.WF)
    (hfixed : ∀ {t i xp xp'}, xp'.fixed = xp.fixed → P t i xp → P t i xp')
    (hnew : ∀ t isconfirmed am o msig, R.output t o → searchMultisigAddrs s o.coinaddr = some msig →
      P t o.vout (newDeposit c s t isconfirmed o am))
    (hs : ∀ r ∈ s.xps, ∀ xp, (s.vp r).xp = some xp → P (s.vp r).parent (s.vp r).parentVout xp) :
    ∀ r ∈ s'.xps, ∀ xp, (s'.vp r).xp = some xp → P (s'.vp r).parent (s'.vp r).parentVout xp := by
  rcases Shape.of_act h with h | ⟨t, n, -, rfl⟩ | ⟨t, isconfirmed, am, o, ⟨-, -, -, hout⟩, rfl⟩
  · intro r hr xp' hxp'
    rw [h.xps] at hr
    obtain ⟨xp, hxp, heq⟩ := h.before hxp'
    obtain ⟨hparent, hvout⟩ := h.place r (by simp [hxp])
    rw [hparent, hvout]
    exact hfixed heq (hs r hr xp hxp)
  · exact hs
  · intro r hr xp hxp
    rw [vp_seeOutput] at hxp ⊢
    rcases mem_xps_seeOutput hr with hr | ⟨rfl, msig, hdue⟩
    · rw [if_neg (hwf.listed_ne_next hr)] at hxp ⊢
      exact hs r hr xp hxp
    · rw [if_pos rfl] at hxp ⊢
      obtain rfl := Option.some.inj hxp
      exact hnew t isconfirmed (am o.vout) o msig hout (dueMsig_eq_some hdue)

theorem nxt64bits_newDeposit {t : Text} {isconfirmed : Nat} {o : Output} {am : BitVec 64} {msig : MultisigAddr}
    (h : searchMultisigAddrs s o.coinaddr = some msig) :
    (newDeposit c s t isconfirmed o am).nxt64bits = calcNxt64bits msig.nxtAddr := by
  show ((searchMultisigAddrs s o.coinaddr).map _).getD _ = _
  rw [h, Option.map_some, Option.getD_some]

theorem listed_init : Listed chain {} where
  bound msig h := by simp at h
  listed r h := by simp at h

theorem Act.listed (h : Act c chain.rules s s') (hwf : s.WF) (hs : Listed chain s) : Listed chain s' where
  bound := h.bound_forall (fun _ hbind => hbind) hs.bound
  listed := by
    refine h.listed_forall (P := fun t i xp => ∃ addr, chain.output t i xp.value addr ∧
      xp.nxt64bits = calcNxt64bits (chain.owner addr)) hwf (fun {t i xp xp'} hfixed hp => ?_)
      (fun t isconfirmed am o msig hout hmsig => ?_) hs.listed
    · rw [show xp'.value = xp.value from (congrArg CrosschainInfo.value hfixed :),
        show xp'.nxt64bits = xp.nxt64bits from (congrArg CrosschainInfo.nxt64bits hfixed :)]
      exact hp
    · have haddr : msig.multisigaddr = o.coinaddr := by simpa using List.find?_some hmsig
      refine ⟨o.coinaddr, hout, ?_⟩
      rw [nxt64bits_newDeposit hmsig, hs.bound msig (List.mem_of_find?_eq_some hmsig), haddr]

theorem paid_init : Paid chain c {} where
  marked p h := by simp [payments] at h
  once := by simp [payments]
  due p h := by simp [payments] at h

/-- **A transaction that was paid is marked, and is not paid again.** -/
theorem Act.marked_once (h : Act c R s s') (hwf : s.WF)
    (hs : (∀ p ∈ payments s, (s.tp p.cointxid).nxtXferbits ≠ 0#64) ∧ ((payments s).map Payment.cointxid).Nodup) :
    (∀ p ∈ payments s', (s'.tp p.cointxid).nxtXferbits ≠ 0#64) ∧ ((payments s').map Payment.cointxid).Nodup := by
  obtain ⟨hmarked, honce⟩ := hs
  rcases h.payments_cases with hpay | ⟨r, xp, txid, hr, hxp, -, -, hmark, htx, hs', hpay⟩
  · rw [hpay]
    exact ⟨fun p hp => h.marked hwf (hmarked p hp), honce⟩
  · have hnew : (s'.tp (s.vp r).parent).nxtXferbits ≠ 0#64 := by
      rw [hs', issueTransfer_eq]
      show ((s.modifyTp _ (setMark txid)).tp _).nxtXferbits ≠ _
      rwa [nxtXferbits_setMark (hwf.made r (by simp [hxp])).2, if_pos rfl]
    refine ⟨fun p hp => ?_, ?_⟩
    · rw [hpay] at hp
      rcases List.mem_append.mp hp with hp | hp
      · exact h.marked hwf (hmarked p hp)
      · obtain rfl := List.mem_singleton.mp hp
        exact hnew
    · rw [hpay, List.map_append, List.nodup_append]
      refine ⟨honce, by simp, fun t ht t' ht' heq => ?_⟩
      obtain ⟨p, hp, rfl⟩ := List.mem_map.mp ht
      rw [List.map_singleton, List.mem_singleton] at ht'
      apply hmarked p hp
      rw [heq, ht']
      exact hmark

theorem Act.paid (h : Act c chain.rules s s') (hwf : s.WF) (hclean : s.Clean) (hlisted : Listed chain s)
    (hs : Paid chain c s) : Paid chain c s' := by
  obtain ⟨hmarked, honce⟩ := h.marked_once hwf ⟨hs.marked, hs.once⟩
  refine ⟨hmarked, honce, ?_⟩
  rcases h.payments_cases with hpay | ⟨r, xp, txid, hr, hxp, hassigned, -, hmark, -, -, hpay⟩
  · rw [hpay]
    exact hs.due
  · intro p hp
    rw [hpay] at hp
    rcases List.mem_append.mp hp with hp | hp
    · exact hs.due p hp
    · obtain rfl := List.mem_singleton.mp hp
      obtain ⟨addr, hout, hbits⟩ := hlisted.listed r hr xp hxp
      refine ⟨addr, ?_, by rwa [← hbits]⟩
      rw [← ((hclean r xp hxp).unmarked hmark).2.2] at hout
      exact hout

/-- **A gateway pays what is due, once for a transaction**, in every run. -/
theorem Acts.paid (h : Acts c chain.rules {} s) : Paid chain c s := by
  have hall : s.Clean ∧ Listed chain s ∧ Paid chain c s := by
    induction h with
    | refl => exact ⟨clean_init, listed_init, paid_init⟩
    | tail hacts h ih =>
      obtain ⟨hclean, hlisted, hpaid⟩ := ih
      have hwf := Acts.wf hacts wf_init
      exact ⟨h.clean hwf hclean, h.listed hwf hlisted, h.paid hwf hclean hlisted hpaid⟩
  exact hall.2.2

end Issue

/-! ## Three gateways -/

/-- An output of the coin, by its transaction and number, with its value and address. -/
def ChainOutput (satoshis : Text → BitVec 64) (decoded : Text → Option Json) (t : Text) (vout : Nat)
    (value : BitVec 64) (addr : Text) : Prop :=
  ∃ json vouts obj script, decoded t = some json ∧ getObjectItem json "vout".toList = some vouts ∧
    vouts.items[vout]? = some obj ∧ readVout vout obj = some (addr, script) ∧ voutValue satoshis obj = value

/-- Scans see the transactions of the coin, by the key of their id, and a binding names the owner of its
address. -/
def OnChain (decoded : Nat → Text → Option Json) (owner : Nat → Text → Text) : Step → Prop
  | .scan coinid txid _ tx => tx = none ∨ tx = decoded coinid (Hashtable.storeKey maxCointxidLen txid)
  | .bind _ nxt64bits argjson => ∀ msig, decodeMsigjson (expandNxt64bits nxt64bits) argjson = some msig →
      msig.nxtAddr = owner msig.coinid.toNat msig.multisigaddr
  | _ => True

section Gateways
variable {render : Text → Text} {satoshis : Text → BitVec 64} {decoded : Nat → Text → Option Json}
  {owner : Nat → Text → Text}

theorem ChainOutput.unique {decoded : Text → Option Json} {t : Text} {vout : Nat} {value value' : BitVec 64}
    {addr addr' : Text} (h : ChainOutput satoshis decoded t vout value addr)
    (h' : ChainOutput satoshis decoded t vout value' addr') : addr = addr' := by
  obtain ⟨json, vouts, obj, script, hjson, hvouts, hobj, hread, -⟩ := h
  obtain ⟨json', vouts', obj', script', hjson', hvouts', hobj', hread', -⟩ := h'
  obtain rfl := Option.some.inj (hjson.symm.trans hjson')
  obtain rfl := Option.some.inj (hvouts.symm.trans hvouts')
  obtain rfl := Option.some.inj (hobj.symm.trans hobj')
  exact congrArg Prod.fst (Option.some.inj (hread.symm.trans hread'))

/-- The chain of a coin. -/
def chainOf (satoshis : Text → BitVec 64) (decoded : Nat → Text → Option Json) (owner : Nat → Text → Text)
    (coinid : Nat) : Chain where
  output := ChainOutput satoshis (decoded coinid)
  owner := owner coinid

theorem OnChain.allowed {gp : GatewayInfo} {e : Step} (h : OnChain decoded owner e) (lps : Replicas) :
    Allowed satoshis gp (fun k => (chainOf satoshis decoded owner k).rules) lps e := by
  cases e with
  | scan coinid txid k tx =>
    intro json vouts hjson hvouts
    refine ⟨fun o ho => ?_, trivial⟩
    obtain ⟨obj, hobj, hread, hvalue⟩ := mem_outputs ho
    rcases h with h | h
    · rw [hjson] at h
      cases h
    · exact ⟨json, vouts, obj, o.script, by rw [← h, hjson], hvouts, hobj, hread, hvalue⟩
  | bind sender nxt64bits argjson => exact h
  | _ => trivial

theorem countP_le_one {α β : Type} [DecidableEq β] {l : List α} {f : α → β} (h : (l.map f).Nodup)
    {q : α → Bool} {b : β} (hq : ∀ x, q x → f x = b) : l.countP q ≤ 1 :=
  calc l.countP q
    _ ≤ l.countP (fun x => f x == b) := List.countP_mono_left fun x _ hx => by simpa using hq x hx
    _ = (l.map f).count b := by rw [List.count_eq_countP, List.countP_map]; rfl
    _ ≤ 1 := List.nodup_iff_count_le_one.mp h b

/-- Numbers of which at most one is `1` and the others `0`. -/
theorem sum_le_one {ι : Type} [Fintype ι] {f : ι → Nat} (hone : ∀ i, f i ≤ 1)
    (hsame : ∀ i j, 0 < f i → 0 < f j → i = j) : ∑ i, f i ≤ 1 := by
  by_cases h : ∃ i, 0 < f i
  · obtain ⟨i, hi⟩ := h
    rw [Finset.sum_eq_single i (fun j _ hj => ?_) (by simp)]
    · exact hone i
    · by_contra hne
      exact hj (hsame j i (Nat.pos_of_ne_zero hne) hi)
  · push Not at h
    rw [Finset.sum_eq_zero fun i _ => Nat.le_zero.mp (h i)]
    exact zero_le_one

/-- **No double issuance.** Over the three gateways, in every run, an output is the subject of at most one
successful transfer, by the gateway of its owner, and of the output's value. -/
theorem payments_once {gps : Fin 3 → GatewayInfo} (hid : ∀ j, (gps j).gatewayid = j)
    {es : List (Fin 3 × Step)} (hes : ∀ e ∈ es, OnChain decoded owner e.2) {σ : Fin 3 → Replicas}
    (hrun : Run.run (Run.parallel fun j => step render satoshis (gps j)) (fun _ => init) es = some σ) (k : Nat) :
    (∀ t vout, ∑ j, (payments (σ j k)).countP (fun p => p.cointxid = t ∧ p.vout = vout) ≤ 1) ∧
    ∀ j, ∀ p ∈ payments (σ j k), ∃ addr, ChainOutput satoshis (decoded k) p.cointxid p.vout p.assetoshis addr ∧
      (calcNxt64bits (owner k addr)).toNat % numGateways = j := by
  have hpaid (j : Fin 3) : Paid (chainOf satoshis decoded owner k) ((gps j).coin k) (σ j k) :=
    Acts.paid (run_acts init_wf (Run.along_of_forall
      (fun lps e he => (hes (j, e) (Run.mem_of_mem_eventsOf he)).allowed lps) _) (Run.run_parallel hrun j) k)
  have hdue (j : Fin 3) : ∀ p ∈ payments (σ j k), ∃ addr,
      ChainOutput satoshis (decoded k) p.cointxid p.vout p.assetoshis addr ∧
      (calcNxt64bits (owner k addr)).toNat % numGateways = j := by
    intro p hp
    obtain ⟨addr, hout, hassigned⟩ := (hpaid j).due p hp
    have hmod : ((calcNxt64bits (owner k addr)).toNat % numGateways : Int) = j := hassigned.trans (hid j)
    exact ⟨addr, hout, by exact_mod_cast hmod⟩
  refine ⟨fun t vout => ?_, hdue⟩
  refine sum_le_one (fun j => ?_) fun i j hi hj => ?_
  · exact countP_le_one (hpaid j).once fun p hp => (of_decide_eq_true hp).1
  · obtain ⟨p, hp, hpt⟩ := List.countP_pos_iff.mp hi
    obtain ⟨q, hq, hqt⟩ := List.countP_pos_iff.mp hj
    rw [decide_eq_true_eq] at hpt hqt
    obtain ⟨addr, hout, hmod⟩ := hdue i p hp
    obtain ⟨addr', hout', hmod'⟩ := hdue j q hq
    rw [hpt.1, hpt.2] at hout
    rw [hqt.1, hqt.2] at hout'
    rw [hout.unique hout'] at hmod
    exact Fin.ext (hmod.symm.trans hmod')

end Gateways

/-- Gateways `0` and `1` see the same deposit; both are asked for a transfer, which would succeed. -/
def twoGateways : List (Fin 3 × Step) :=
  [(0, bindStep), (1, bindStep), (0, scanStep), (1, scanStep),
    (1, .transfer 4 (fun _ => 13#64) fun _ => 0), (0, .transfer 4 (fun _ => 11#64) fun _ => 0)]

theorem payments_once_twoGateways :
    ∃ σ, Run.run (Run.parallel fun j : Fin 3 => step id wholeCoins (smallGateway j)) (fun _ => init)
        twoGateways = some σ ∧
      ∑ j, (payments (σ j 4)).countP (fun p => p.cointxid = "t1".toList ∧ p.vout = 0) ≤ 1 := by
  have hmsig : decodeMsigjson (expandNxt64bits 3#64) (bindJson "A".toList) =
      some ⟨"3".toList, "A".toList, "52".toList, List.replicate 3 {}, 2, 3, 4⟩ := by decide +kernel
  have hbind : OnChain (fun _ _ => some depositTx) (fun _ _ => "3".toList) bindStep := by
    intro msig h
    rw [← Option.some.inj (hmsig.symm.trans h)]
  have hscan : OnChain (fun _ _ => some depositTx) (fun _ _ => "3".toList) scanStep := .inr rfl
  have hes : ∀ e ∈ twoGateways, OnChain (fun _ _ => some depositTx) (fun _ _ => "3".toList) e.2 := by
    simp only [twoGateways, List.forall_mem_cons]
    exact ⟨hbind, hbind, hscan, hscan, trivial, trivial, by simp⟩
  have hrun : (Run.run (Run.parallel fun j : Fin 3 => step id wholeCoins (smallGateway j)) (fun _ => init)
      twoGateways).isSome := by decide +kernel
  obtain ⟨σ, hσ⟩ := Option.isSome_iff_exists.mp hrun
  exact ⟨σ, hσ, (payments_once (fun _ => rfl) hes hσ 4).1 _ _⟩

/-! ## One pass over the deposits -/

/-- The guards of a transfer, apart from those that look at earlier transfers: a confirmed deposit of this
gateway's share, with a value, an asset and a balance. -/
def Owed (c : Coin) (s : Replica) (r : Nat) : Prop :=
  ∃ xp, (s.vp r).xp = some xp ∧ xp.isinternal = 0 ∧ xp.coinConfirmed ≠ 0 ∧ xp.value ≠ 0#64 ∧
    assigned c xp.nxt64bits ∧ assetidStr c.coinid ≠ [] ∧
    0 < balanceVerification c s Bool.false (expandNxt64bits xp.nxt64bits) xp.value

instance (c : Coin) (s : Replica) (r : Nat) : Decidable (Owed c s r) :=
  match h : (s.vp r).xp with
  | none => isFalse fun ⟨xp, hxp, _⟩ => by rw [h] at hxp; cases hxp
  | some xp =>
    decidable_of_iff (xp.isinternal = 0 ∧ xp.coinConfirmed ≠ 0 ∧ xp.value ≠ 0#64 ∧
        assigned c xp.nxt64bits ∧ assetidStr c.coinid ≠ [] ∧
        0 < balanceVerification c s Bool.false (expandNxt64bits xp.nxt64bits) xp.value)
      ⟨fun hp => ⟨xp, h, hp⟩, fun ⟨xp', hxp', hp⟩ => by
        obtain rfl := Option.some.inj (h.symm.trans hxp')
        exact hp⟩

/-- The first owed deposit of a transaction in a list. -/
def firstOwed (c : Coin) (s : Replica) (t : Text) (rs : List Nat) : Option Nat :=
  rs.find? fun r => (s.vp r).parent = t ∧ Owed c s r

section Pass
variable {c : Coin} {s s' : Replica}

/-- Passes leave the totals alone. -/
structure Keeps (s s' : Replica) : Prop where
  shape : Shape s s'
  funds : s'.funds = s.funds
  accts : s'.accts = s.accts

theorem Keeps.owed_iff (h : Keeps s s') (r : Nat) : Owed c s' r ↔ Owed c s r := by
  have hbal (nxtAddr : Text) (value : BitVec 64) :
      balanceVerification c s' Bool.false nxtAddr value = balanceVerification c s Bool.false nxtAddr value := by
    unfold balanceVerification getCoinAcct
    rw [h.funds, h.accts]
  have hpart {xp xp' : CrosschainInfo} (hfix : xp'.fixed = xp.fixed) : xp'.isinternal = xp.isinternal ∧
      xp'.coinConfirmed = xp.coinConfirmed ∧ xp'.value = xp.value ∧ xp'.nxt64bits = xp.nxt64bits :=
    ⟨(congrArg CrosschainInfo.isinternal hfix :), (congrArg CrosschainInfo.coinConfirmed hfix :),
      (congrArg CrosschainInfo.value hfix :), (congrArg CrosschainInfo.nxt64bits hfix :)⟩
  constructor
  · rintro ⟨xp', hxp', howed⟩
    obtain ⟨xp, hxp, hfix⟩ := h.shape.before hxp'
    obtain ⟨hi, hc, hv, hb⟩ := hpart hfix
    rw [hi, hc, hv, hb, hbal] at howed
    exact ⟨xp, hxp, howed⟩
  · rintro ⟨xp, hxp, howed⟩
    obtain ⟨xp', hxp', hfix⟩ := h.shape.after hxp
    obtain ⟨hi, hc, hv, hb⟩ := hpart hfix
    refine ⟨xp', hxp', ?_⟩
    rwa [hi, hc, hv, hb, hbal]

theorem Keeps.firstOwed (h : Keeps s s') (t : Text) {rs : List Nat} (hrs : ∀ r ∈ rs, (s.vp r).xp.isSome) :
    firstOwed c s' t rs = Gateway.firstOwed c s t rs := by
  refine List.find?_congr fun r hr => ?_
  rw [(h.shape.place r (hrs r hr)).1, decide_eq_decide, h.owed_iff]

theorem Keeps.refl (s : Replica) : Keeps s s := ⟨.refl s, rfl, rfl⟩

theorem Owed.guards (hs : s.Clean) {r : Nat} {xp : CrosschainInfo} (hxp : (s.vp r).xp = some xp)
    (howed : Owed c s r) (hmark : (s.tp (s.vp r).parent).nxtXferbits = 0#64) :
    (xp.isinternal = 0 ∧ xp.coinConfirmed ≠ 0 ∧ xp.nxtXfermask ≠ xp.nxt.confirmed) ∧
      (0 ≤ c.gatewayid ∧ xp.nxtXfermask &&& 1 ≠ 0 ∧ xp.nxt.pending &&& 1 = 0) ∧
      assigned c xp.nxt64bits ∧ assetidStr c.coinid ≠ [] ∧ xp.assetoshis ≠ 0#64 ∧
        0 < balanceVerification c s Bool.false (expandNxt64bits xp.nxt64bits) xp.value := by
  obtain ⟨xp', hxp', hinternal, hconfirmed, hvalue, hassigned, hasset, hbalance⟩ := howed
  obtain rfl := Option.some.inj (hxp.symm.trans hxp')
  obtain ⟨hmask, hunmarked⟩ := hs r xp hxp
  obtain ⟨hp, hc, ha⟩ := hunmarked hmark
  have hid : (0 : Int) ≤ c.gatewayid := hassigned ▸ Int.natCast_nonneg _
  rw [hmask, hp, hc, ha]
  exact ⟨⟨hinternal, hconfirmed, by decide⟩, ⟨hid, by decide, by decide⟩, hassigned, hasset, hvalue, hbalance⟩

/-- What a deposit's turn does: it is paid exactly when it is owed and its transaction has no mark. -/
theorem authorize_cases (hs : s.Clean) (r : Nat) (txid : BitVec 64) (confirms : Int) :
    (∃ xp, (s.vp r).xp = some xp ∧ Owed c s r ∧ (s.tp (s.vp r).parent).nxtXferbits = 0#64 ∧
      authorizeAssetTransfer c s r txid confirms = issueTransfer c s r xp txid) ∨
    (¬ (Owed c s r ∧ (s.tp (s.vp r).parent).nxtXferbits = 0#64) ∧
      Keeps s (authorizeAssetTransfer c s r txid confirms) ∧
      (authorizeAssetTransfer c s r txid confirms).calls = s.calls ∧
      ∀ t, (authorizeAssetTransfer c s r txid confirms).tp t = s.tp t) := by
  unfold authorizeAssetTransfer
  split
  · next hnone =>
    refine .inr ⟨fun ⟨⟨xp, hxp, _⟩, _⟩ => ?_, .refl s, rfl, fun _ => rfl⟩
    rw [hnone] at hxp
    cases hxp
  · next xp hxp =>
    have hguards (h : Owed c s r ∧ (s.tp (s.vp r).parent).nxtXferbits = 0#64) := h.1.guards hs hxp h.2
    dsimp only
    split
    · next h₁ =>
      split
      · split
        · next h =>
          obtain ⟨hassigned, hasset, hoshis, hbalance, hmark⟩ := h
          rw [((hs r xp hxp).unmarked hmark).2.2] at hoshis
          exact .inl ⟨xp, hxp, ⟨xp, hxp, h₁.1, h₁.2.1, hoshis, hassigned, hasset, hbalance⟩, hmark, rfl⟩
        · next h =>
          refine .inr ⟨fun ho => h ?_, .refl s, rfl, fun _ => rfl⟩
          obtain ⟨-, -, ha, hb, hc, hd⟩ := hguards ho
          exact ⟨ha, hb, hc, hd, ho.2⟩
      · next h =>
        have hno : ¬ (Owed c s r ∧ (s.tp (s.vp r).parent).nxtXferbits = 0#64) := fun ho => h (hguards ho).2.1
        split
        · exact .inr ⟨hno, ⟨.of_modifyXp r fun _ => by rfl, rfl, rfl⟩, rfl, fun _ => rfl⟩
        · exact .inr ⟨hno, .refl s, rfl, fun _ => rfl⟩
    · next h => exact .inr ⟨fun ho => h (hguards ho).1, .refl s, rfl, fun _ => rfl⟩

theorem issueTransfer_keeps (r : Nat) (xp : CrosschainInfo) (txid : BitVec 64) :
    Keeps s (issueTransfer c s r xp txid) := by
  rw [issueTransfer_eq]
  exact ⟨((Shape.of_setMark _ txid).trans (.of_modifyXp r fun _ => by rfl)).congr rfl rfl rfl, rfl, rfl⟩

theorem payments_issueTransfer (r : Nat) (xp : CrosschainInfo) {txid : BitVec 64} (h : txid ≠ 0#64) :
    payments (issueTransfer c s r xp txid) = payments s ++
      [⟨(s.vp r).parent, (s.vp r).parentVout, expandNxt64bits xp.nxt64bits, xp.assetoshis⟩] := by
  unfold payments
  rw [issueTransfer_eq, Replica.log_calls, List.filterMap_append]
  simp [Call.payment, h]
  rfl

/-- An output is among some payments. -/
def Pays (ps : List Payment) (t : Text) (vout : Nat) : Prop := ∃ p ∈ ps, p.cointxid = t ∧ p.vout = vout

instance (ps : List Payment) (t : Text) (vout : Nat) : Decidable (Pays ps t vout) :=
  inferInstanceAs (Decidable (∃ p ∈ ps, _))

theorem pays_cons {p : Payment} {ps : List Payment} {t : Text} {vout : Nat} :
    Pays (p :: ps) t vout ↔ (p.cointxid = t ∧ p.vout = vout) ∨ Pays ps t vout := by
  simp [Pays]

theorem firstOwed_cons_of_pos {t : Text} {r : Nat} {rs : List Nat} (ht : (s.vp r).parent = t) (h : Owed c s r) :
    firstOwed c s t (r :: rs) = some r := List.find?_cons_of_pos (by simp [ht, h])

theorem firstOwed_cons_of_neg {t : Text} {r : Nat} {rs : List Nat} (h : ¬ ((s.vp r).parent = t ∧ Owed c s r)) :
    firstOwed c s t (r :: rs) = firstOwed c s t rs := List.find?_cons_of_neg (by simpa using h)

/-- The outputs that a list of deposits pays, from the first owed deposit of each transaction. -/
def PaysFirst (c : Coin) (s : Replica) (rs : List Nat) (ps : List Payment) : Prop :=
  ∀ t vout, Pays ps t vout ↔ (s.tp t).nxtXferbits = 0#64 ∧
    ∃ r, firstOwed c s t rs = some r ∧ (s.vp r).parentVout = vout

theorem Keeps.paysFirst_iff (h : Keeps s s') {rs : List Nat} {ps : List Payment}
    (hrs : ∀ r ∈ rs, (s.vp r).xp.isSome) (hps : PaysFirst c s' rs ps) (t : Text) (vout : Nat) :
    Pays ps t vout ↔ (s'.tp t).nxtXferbits = 0#64 ∧
      ∃ r, Gateway.firstOwed c s t rs = some r ∧ (s.vp r).parentVout = vout := by
  rw [hps t vout, h.firstOwed t hrs]
  refine and_congr_right fun _ => exists_congr fun r => and_congr_right fun hr => ?_
  rw [(h.shape.place r (hrs r (List.mem_of_find?_eq_some hr))).2]

theorem PaysFirst.issue (hwf : s.WF) {r : Nat} {xp : CrosschainInfo} {txid : BitVec 64} {rs : List Nat}
    {ps : List Payment} (htxid : txid ≠ 0#64) (hxp : (s.vp r).xp = some xp) (howed : Owed c s r)
    (hmark : (s.tp (s.vp r).parent).nxtXferbits = 0#64) (hrs : ∀ r ∈ rs, (s.vp r).xp.isSome)
    (hps : PaysFirst c (issueTransfer c s r xp txid) rs ps) :
    PaysFirst c s (r :: rs)
      (⟨(s.vp r).parent, (s.vp r).parentVout, expandNxt64bits xp.nxt64bits, xp.assetoshis⟩ :: ps) := by
  intro t vout
  have hset : ((issueTransfer c s r xp txid).tp t).nxtXferbits =
      if t = (s.vp r).parent then txid else (s.tp t).nxtXferbits := by
    rw [issueTransfer_eq]
    exact nxtXferbits_setMark (hwf.made r (by simp [hxp])).2 t
  rw [pays_cons, (issueTransfer_keeps r xp txid).paysFirst_iff hrs hps, hset]
  by_cases ht : t = (s.vp r).parent
  · subst ht
    rw [if_pos rfl, firstOwed_cons_of_pos rfl howed]
    simp [htxid, hmark]
  · rw [if_neg ht, firstOwed_cons_of_neg fun h => ht h.1.symm]
    simp [Ne.symm ht]

theorem PaysFirst.pass (hkeeps : Keeps s s') {r : Nat} {rs : List Nat} {ps : List Payment}
    (hno : ¬ (Owed c s r ∧ (s.tp (s.vp r).parent).nxtXferbits = 0#64)) (htp : ∀ t, s'.tp t = s.tp t)
    (hrs : ∀ r ∈ rs, (s.vp r).xp.isSome) (hps : PaysFirst c s' rs ps) : PaysFirst c s (r :: rs) ps := by
  intro t vout
  rw [hkeeps.paysFirst_iff hrs hps, htp]
  by_cases hr : (s.vp r).parent = t ∧ Owed c s r
  · have hne : (s.tp t).nxtXferbits ≠ 0#64 := fun h => hno ⟨hr.2, hr.1 ▸ h⟩
    simp [hne]
  · rw [firstOwed_cons_of_neg hr]

/-- The payments of the loop, when every transfer succeeds. -/
theorem transferLoop_payments {txid : Nat → BitVec 64} (htxid : ∀ i, txid i ≠ 0#64) (confirms : Nat → Int)
    {rs : List Nat} {i : Nat} (hwf : s.WF) (hs : s.Clean) (hrs : ∀ r ∈ rs, r ∈ s.xps) :
    ∃ ps, payments (transferLoop c txid confirms rs i s) = payments s ++ ps ∧ PaysFirst c s rs ps := by
  induction rs generalizing i s with
  | nil => exact ⟨[], by simp [transferLoop], fun t vout => by simp [Pays, firstOwed]⟩
  | cons r rs ih =>
    have hsome : ∀ q ∈ rs, (s.vp q).xp.isSome := fun q hq => by
      obtain ⟨xp, hxp, -⟩ := hwf.listed q (hrs q (by simp [hq]))
      simp [hxp]
    obtain ⟨hacts, hxps⟩ :=
      authorizeAssetTransfer_acts (c := c) (R := {}) (hrs r (by simp)) (txid i) (confirms i)
    obtain ⟨ps, hpay, hps⟩ := ih (i := i + 1) (Acts.wf hacts hwf) (Acts.clean hacts hwf hs) fun q hq => by
      rw [hxps]
      exact hrs q (by simp [hq])
    rcases authorize_cases (c := c) hs r (txid i) (confirms i) with
      ⟨xp, hxp, howed, hmark, heq⟩ | ⟨hno, hkeeps, hcalls, htp⟩
    · rw [heq] at hps hpay
      refine ⟨_, ?_, PaysFirst.issue hwf (htxid i) hxp howed hmark hsome hps⟩
      rw [transferLoop, heq, hpay, payments_issueTransfer r xp (htxid i), List.append_assoc, List.singleton_append]
    · refine ⟨ps, ?_, PaysFirst.pass hkeeps hno htp hsome hps⟩
      rw [transferLoop, hpay]
      unfold payments
      rw [hcalls]

/-- **Which deposits a pass pays.** In every reachable state of a node, a pass in which every transfer
succeeds pays an output exactly when its transaction carries no mark and the first owed deposit of the
transaction in the list is one of this output. -/
theorem issued_iff_first {render : Text → Text} {satoshis : Text → BitVec 64} {gp : GatewayInfo} {lps : Replicas}
    (hreach : Reachable render satoshis gp lps) (k : Nat) {txid : Nat → BitVec 64} (htxid : ∀ i, txid i ≠ 0#64)
    (confirms : Nat → Int) (t : Text) (vout : Nat) :
    Pays ((payments (transferAssets (gp.coin k) txid confirms (lps k))).drop (payments (lps k)).length) t vout ↔
      ((lps k).tp t).nxtXferbits = 0#64 ∧
        ∃ r, firstOwed (gp.coin k) (lps k) t (lps k).xps = some r ∧ ((lps k).vp r).parentVout = vout := by
  obtain ⟨es, hrun⟩ := hreach
  have hacts := run_acts (R := fun _ => {}) init_wf (Run.along_of_forall (fun lps e _ => ?_) _) hrun k
  · obtain ⟨ps, hpay, hps⟩ := transferLoop_payments (c := gp.coin k) (i := 0) htxid confirms
      (Acts.wf hacts wf_init) (Acts.clean hacts wf_init clean_init) fun _ h => h
    rw [transferAssets, hpay, List.drop_left]
    exact hps t vout
  · cases e <;> simp [Allowed]

end Pass

/-- The first output of the deposits is paid. -/
theorem issued_first_afterScan :
    Pays ((payments (transferAssets ((smallGateway 0).coin 4) (fun _ => 11#64) (fun _ => 0) (afterScan 4))).drop
      (payments (afterScan 4)).length) "t1".toList 0 :=
  (issued_iff_first ⟨_, run_afterScan⟩ 4 (fun _ => by decide) _ _ _).mpr (by
    refine ⟨by decide +kernel, 0, by decide +kernel, by decide +kernel⟩)

/-- An asset transfer names the output. -/
def Names (render : Text → Text) (k : Nat) (t : Text) (vout : Nat) : Step → Prop
  | .assetevent ev _ => convAssetid ev.assetid = some k ∧ ∃ name cointxid,
      ev.crosschain render = some (name, cointxid, (vout : Int)) ∧ convCoinstr name = some k ∧
        Hashtable.storeKey maxCointxidLen cointxid = t
  | _ => False

/-- The second output of the deposits is not paid, although it is owed and no transfer was made for it. -/
theorem not_forall_owed_issued :
    ¬ ∀ (render : Text → Text) (satoshis : Text → BitVec 64) (gp : GatewayInfo) (es : List Step) (lps : Replicas),
      Run.run (step render satoshis gp) init es = some lps →
      ∀ (k : Nat) (txid : Nat → BitVec 64) (confirms : Nat → Int), (∀ i, txid i ≠ 0#64) →
      ∀ (t : Text) (vout : Nat),
        (∃ r ∈ (lps k).xps, ((lps k).vp r).parent = t ∧ ((lps k).vp r).parentVout = vout ∧
          Owed (gp.coin k) (lps k) r) →
        (∀ e ∈ es, ¬ Names render k t vout e) → ¬ Pays (payments (lps k)) t vout →
        Pays ((payments (transferAssets (gp.coin k) txid confirms (lps k))).drop (payments (lps k)).length) t vout := by
  intro h
  have hpaid := h id wholeCoins (smallGateway 0) _ _ run_afterScan 4 (fun _ => 11#64) (fun _ => 0)
    (fun _ => by decide) "t1".toList 1 (by decide +kernel)
    (by simp [bindStep, scanStep, Names]) (by decide +kernel)
  exact absurd hpaid (by decide +kernel)
end NXTServices.Gateway
