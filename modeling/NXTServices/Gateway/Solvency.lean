import NXTServices.Gateway.Rescan
import NXTServices.Gateway.Totals

/-!
# Solvency of a gateway

What a gateway issues is bounded by what it has credited. Issuing changes no total, so the bound is that of an
invariant: each payment is for a listed deposit of the same account and amount, and no two are for the same one.

* `Credit`, `credits` : the listed deposits;
* `Booked`, `step_booked` : the deposits total is the sum of the credits, and every step keeps it so;
* `Backed`, `Act.backed` : every payment has its credit, and every act keeps it so;
* `solvent` : **the amounts issued are at most the deposits**, of every account and of the coin.
-/

namespace NXTServices.Gateway
open Json hiding true false
open Queue Tally

/-! ## Credits -/

/-- A listed deposit. -/
structure Credit where
  cointxid : Text
  msig : MultisigAddr
  value : BitVec 64
deriving DecidableEq

def creditOf (s : Replica) (r : Nat) : Option Credit :=
  (s.vp r).xp.bind fun xp => xp.msig.map fun msig => ⟨(s.vp r).parent, msig, xp.value⟩

def credits (s : Replica) : List Credit := s.xps.filterMap (creditOf s)

/-- The addresses and the amounts of credits. -/
def amounts (ds : List Credit) : List (MultisigAddr × BitVec 64) := ds.map fun d => (d.msig, d.value)

/-- The credits for deposits of the transaction. -/
def creditsFor (t : Text) (due : List (MultisigAddr × BitVec 64)) : List Credit := due.map fun d => ⟨t, d.1, d.2⟩

section Credits
variable {satoshis : Text → BitVec 64} {c : Coin} {R : Rules} {s s' : Replica} {t : Text} {isconfirmed : Nat}
  {am : Nat → BitVec 64} {k : Sighting} {decoded : Option Json}

theorem amounts_append (ds ds' : List Credit) : amounts (ds ++ ds') = amounts ds ++ amounts ds' := List.map_append

theorem amounts_creditsFor (due : List (MultisigAddr × BitVec 64)) : amounts (creditsFor t due) = due := by
  simp [amounts, creditsFor, Function.comp_def]

theorem creditOf_of_some {r : Nat} {xp : CrosschainInfo} {msig : MultisigAddr} (hxp : (s.vp r).xp = some xp)
    (hmsig : xp.msig = some msig) : creditOf s r = some ⟨(s.vp r).parent, msig, xp.value⟩ := by
  simp [creditOf, hxp, hmsig]

/-- Only a scan changes the credits. -/
theorem credits_of_shape (h : Shape s s') : credits s' = credits s := by
  have hone : creditOf s' = creditOf s := by
    funext r
    unfold creditOf
    cases hxp : (s.vp r).xp with
    | none =>
      have : (s'.vp r).xp = none := by simpa [hxp] using h.isSome r
      rw [this]
      rfl
    | some xp =>
      obtain ⟨xp', hxp', hfixed⟩ := h.after hxp
      rw [hxp', Option.bind_some, Option.bind_some, (h.place r (by rw [hxp]; rfl)).1,
        show xp'.msig = xp.msig from (congrArg CrosschainInfo.msig hfixed :),
        show xp'.value = xp.value from (congrArg CrosschainInfo.value hfixed :)]
  unfold credits
  rw [h.xps, hone]

/-- A new output is credited when it is a deposit. -/
theorem credits_seeOutput (hwf : s.WF) (o : Output) :
    credits (seeOutput c t isconfirmed am s o) = credits s ++ creditsFor t (dueDeposits s isconfirmed [o]) := by
  have hold {r : Nat} (hr : r ∈ s.xps) : creditOf (seeOutput c t isconfirmed am s o) r = creditOf s r := by
    unfold creditOf
    rw [vp_seeOutput, if_neg (hwf.listed_ne_next hr)]
  have hxps : (seeOutput c t isconfirmed am s o).xps =
      if (dueMsig s isconfirmed o).isSome then s.xps ++ [s.values.next] else s.xps := rfl
  unfold credits
  rw [hxps]
  cases hdue : dueMsig s isconfirmed o with
  | none => simpa [hdue, dueDeposits, creditsFor] using List.filterMap_congr fun r hr => hold hr
  | some msig =>
    have hmsig := dueMsig_eq_some hdue
    have hnew : creditOf (seeOutput c t isconfirmed am s o) s.values.next = some ⟨t, msig, o.value⟩ := by
      unfold creditOf
      rw [vp_seeOutput, if_pos rfl]
      simp [newOutput, newDeposit, hmsig]
    rw [Option.isSome_some, if_pos rfl, List.filterMap_append, List.filterMap_congr fun r hr => hold hr]
    simp [hnew, hdue, dueDeposits, creditsFor]

theorem credits_foldl_seeOutput (known : (s.coinTxids t).isSome) (hwf : s.WF) (os : List Output) :
    credits (os.foldl (seeOutput c t isconfirmed am) s) = credits s ++ creditsFor t (dueDeposits s isconfirmed os) := by
  induction os generalizing s with
  | nil => simp [dueDeposits, creditsFor]
  | cons o os ih =>
    have hknown : ((seeOutput c t isconfirmed am s o).coinTxids t).isSome := by
      show (s.coinTxids.modify t _ t).isSome
      rwa [Table.isSome_modify]
    rw [List.foldl_cons, ih hknown (hwf.output isconfirmed am o known), credits_seeOutput hwf,
      dueDeposits_congr msigs_seeOutput, List.append_assoc]
    unfold creditsFor
    rw [← List.map_append, dueDeposits, dueDeposits, ← List.filterMap_append]
    rfl

/-- **What a scan credits.** -/
theorem updateCoinValues_credits (known : (s.coinTxids t).isSome) (hwf : s.WF)
    (h : updateCoinValues satoshis c s t k decoded = some s') :
    credits s' = credits s ++ creditsFor t (dueOf satoshis c s (k.isconfirmed c) decoded) := by
  have hreset : Frame s (s.modifyTp t (resetTp k)) := resetTp_frame k
  cases decoded with
  | none =>
    obtain rfl := Option.some.inj h
    exact (List.append_nil _).symm
  | some json =>
    rw [updateCoinValues_eq known] at h
    have hwf' : (s.modifyTp t (resetTp k)).WF := hwf.of_shape (.of_frame hreset)
    have hseen : credits (seeOutputs satoshis c t k (getObjectItem json "vout".toList) (s.modifyTp t (resetTp k))) =
        credits s ++ creditsFor t (dueOf satoshis c s (k.isconfirmed c) (some json)) := by
      unfold dueOf
      rw [Option.bind_some]
      cases getObjectItem json "vout".toList with
      | none => exact (List.append_nil _).symm
      | some vouts =>
        refine (credits_foldl_seeOutput ?_ (hwf'.clear t _) _).trans rfl
        rw [Replica.modifyTp_coinTxids, Table.isSome_modify]
        exact hreset.known t known
    rw [← hseen]
    refine credits_of_shape (.of_frame (processVins_frame ?_ h))
    exact (seeOutputs_reset_wf hwf known k _).free

end Credits

/-! ## The deposits total -/

/-- The deposits of the coin, and of every account, are its credits. -/
def Booked (c : Coin) (s : Replica) : Prop :=
  ∀ owner, totalOf s .deposit owner = amountTo c (amounts (credits s)) owner

structure SameDeposits (s s' : Replica) : Prop where
  deposits : ∀ owner, totalOf s' .deposit owner = totalOf s .deposit owner

namespace SameDeposits
variable {c : Coin} {s s₁ s₂ : Replica} {ps : List Posting} {lps : Replicas} {k : Nat}

theorem refl (s : Replica) : SameDeposits s s := ⟨fun _ => rfl⟩

theorem trans (h₁ : SameDeposits s s₁) (h₂ : SameDeposits s₁ s₂) : SameDeposits s s₂ :=
  ⟨fun owner => (h₂.deposits owner).trans (h₁.deposits owner)⟩

theorem of_funds (hfunds : s₁.funds = s.funds) (haccts : ∀ key, (s₁.accts key).funds = (s.accts key).funds) :
    SameDeposits s s₁ := by
  refine ⟨fun owner => ?_⟩
  cases owner with
  | none => exact congrArg (BalanceInfo.total · .deposit) hfunds
  | some key => exact congrArg (BalanceInfo.total · .deposit) (haccts key)

theorem of_posted (h : Posted c ps s s₁) (hps : ∀ p ∈ ps, p.type ≠ .deposit) : SameDeposits s s₁ := by
  refine ⟨fun owner => ?_⟩
  rw [h.totalOf, postedTo_eq_zero hps, BitVec.add_zero]

theorem update {coinid : Nat} (h : SameDeposits (lps coinid) s) :
    SameDeposits (lps k) (Function.update lps coinid s k) := by
  by_cases hk : k = coinid
  · subst hk
    rwa [Function.update_self]
  · rw [Function.update_of_ne hk]
    exact .refl _

end SameDeposits

section Handlers
variable {render : Text → Text} {satoshis : Text → BitVec 64} {gp : GatewayInfo} {lps lps' : Replicas} {c : Coin}
  {s s' : Replica} {k : Nat}

theorem settleDeposit_sameDeposits (t : Text) (vout : Int) (r : Nat) (xp : CrosschainInfo)
    (nxt64bits nxtTxid assetoshis : BitVec 64) :
    SameDeposits s (settleDeposit c s t vout r xp nxt64bits nxtTxid assetoshis) := by
  unfold settleDeposit
  dsimp only
  split
  · have hcharge : Posted c [⟨acctKey (expandNxt64bits nxt64bits), .depositTransfer, xp.value⟩] s
        (updateBalanceInfo c s .depositTransfer (expandNxt64bits nxt64bits) xp.value) := .update ..
    exact .of_posted (hcharge.congr rfl rfl) (by simp)
  · exact .of_funds rfl fun _ => rfl

theorem setPendingAssetxfer_sameDeposits (t : Text) (vout : Int) (nxt64bits nxtTxid assetoshis : BitVec 64) :
    SameDeposits s (setPendingAssetxfer c s t vout nxt64bits nxtTxid assetoshis).2 := by
  unfold setPendingAssetxfer
  split
  · exact .refl s
  · split
    · exact .refl s
    · exact settleDeposit_sameDeposits ..

/-- With the daemon, a message leaves the deposits to the scans. -/
theorem decodeDepositconfirmed_sameDeposits (hdaemon : c.daemon) {argjson : Json} {amtxid : Option Text} {code : Int}
    (h : decodeDepositconfirmed c s argjson amtxid = some (code, s')) : SameDeposits s s' := by
  have hconfirm (x t nxtAddr : Text) (value : BitVec 64) :
      SameDeposits s (confirmAM c (s.addTp x) t amtxid nxtAddr value) := by
    unfold confirmAM
    simp only [hdaemon, if_true]
    split
    · exact .of_funds rfl fun _ => rfl
    · split <;> exact .of_funds rfl fun _ => rfl
  unfold decodeDepositconfirmed at h
  obtain ⟨nxtTxid, -, heq⟩ := Option.map_eq_some_iff.mp h
  split at heq
  · obtain ⟨-, rfl⟩ := Prod.mk.inj heq
    exact (hconfirm _ _ _ _).trans (setPendingAssetxfer_sameDeposits _ _ _ _ _)
  · obtain ⟨-, rfl⟩ := Prod.mk.inj heq
    exact hconfirm ..

theorem decodeDepositconfirmedJson_sameDeposits (hdaemon : (gp.coin k).daemon) {argjson : Json} {amtxid : Option Text}
    {code : Int} (h : decodeDepositconfirmedJson gp lps argjson amtxid = some (code, lps')) :
    SameDeposits (lps k) (lps' k) := by
  unfold decodeDepositconfirmedJson at h
  split at h
  · obtain ⟨-, rfl⟩ := Prod.mk.inj (Option.some.inj h)
    exact .refl _
  · dsimp only at h
    split at h
    · split at h
      · obtain ⟨⟨code', s'⟩, hdec, heq⟩ := Option.map_eq_some_iff.mp h
        obtain ⟨-, rfl⟩ := Prod.mk.inj heq
        by_cases hk : k = (int32 (getCJSONInt argjson "coinid".toList)).toNat
        · rw [← hk] at hdec ⊢
          exact .update (decodeDepositconfirmed_sameDeposits hdaemon hdec)
        · rw [Function.update_of_ne hk]
          exact .refl _
      · obtain ⟨-, rfl⟩ := Prod.mk.inj (Option.some.inj h)
        exact .refl _
    · cases h

theorem retryAll_sameDeposits (hdaemon : (gp.coin k).daemon) {coinid : Nat} (h : retryAll gp lps coinid = some lps') :
    SameDeposits (lps k) (lps' k) := by
  have hloop {lps lps' : Replicas} {one : Bool} {n : Nat} (h : retryLoop gp coinid one n lps = some lps') :
      SameDeposits (lps k) (lps' k) :=
    retryLoop_rule (P := fun lps lps' => SameDeposits (lps k) (lps' k)) (fun _ => .refl _) (fun h₁ h₂ => h₁.trans h₂)
      (fun _ _ _ => .update (.of_funds rfl fun _ => rfl)) (decodeDepositconfirmedJson_sameDeposits hdaemon) h
  obtain ⟨mid, hmid, hrest⟩ := Option.bind_eq_some_iff.mp h
  exact (hloop hmid).trans (hloop hrest)

/-- Issuing changes no total. -/
theorem transferAssets_sameDeposits (txid : Nat → BitVec 64) (confirms : Nat → Int) :
    SameDeposits s (transferAssets c txid confirms s) := by
  have hone (s : Replica) (r i : Nat) : SameDeposits s (authorizeAssetTransfer c s r (txid i) (confirms i)) := by
    unfold authorizeAssetTransfer
    split
    · exact .refl s
    · dsimp only
      split
      · split
        · split <;> exact .of_funds rfl fun _ => rfl
        · split <;> exact .of_funds rfl fun _ => rfl
      · exact .refl s
  have hloop (rs : List Nat) (i : Nat) (s : Replica) : SameDeposits s (transferLoop c txid confirms rs i s) := by
    induction rs generalizing i s with
    | nil => exact .refl s
    | cons r rs ih => exact (hone s r i).trans (ih (i + 1) _)
  exact hloop s.xps 0 s

theorem updateAcctBinding_sameDeposits (nxtAddr : Text) (msig : MultisigAddr) :
    SameDeposits s (updateAcctBinding c s nxtAddr msig) := by
  unfold updateAcctBinding
  split
  · split
    · exact .refl s
    · refine .of_funds rfl fun key => ?_
      show (Function.update s.accts (acctKey nxtAddr) _ key).funds = _
      rw [Function.update_apply]
      split
      · next h => rw [h]
      · rfl
  · exact .refl s

/-- **Only scans change the deposits** of a coin with a daemon. -/
theorem step_sameDeposits (hdaemon : (gp.coin k).daemon) {e : Step}
    (he : ∀ coinid txid sight decoded, e ≠ .scan coinid txid sight decoded)
    (h : step render satoshis gp lps e = some lps') : SameDeposits (lps k) (lps' k) := by
  cases step_handled h with
  | idle => exact .refl _
  | scan => exact (he _ _ _ _ rfl).elim
  | assetevent ev validaddr =>
    cases hcoin : eventCoin gp ev with
    | none =>
      rw [multigatewayAssetevent_of_none hcoin]
      exact .refl _
    | some coinid =>
      rw [multigatewayAssetevent_of_some hcoin]
      by_cases hk : k = coinid
      · subst hk
        obtain ⟨hfunds, haccts, -⟩ := assetcommand_daemon hdaemon render (lps k) ev validaddr
        exact .update (.of_funds hfunds fun key => by rw [haccts])
      · rw [Function.update_of_ne hk]
        exact .refl _
  | depositConfirmed hdecoded =>
    refine (decodeDepositconfirmedJson_sameDeposits hdaemon hdecoded).trans ?_
    split
    · exact .update (.of_funds rfl fun _ => rfl)
    · exact .refl _
  | retry hretry => exact retryAll_sameDeposits hdaemon hretry
  | transfer coinid txid confirms => exact .update (transferAssets_sameDeposits txid confirms)
  | bind => exact .update (updateAcctBinding_sameDeposits _ _)

end Handlers

/-- Acts that see no output. -/
def quietRules : Rules where
  output _ _ := False
  clear _ _ := False
  clear_frame _ h := h

theorem Acts.shape {c : Coin} {s s' : Replica} (h : Acts c quietRules s s') : Shape s s' := by
  induction h with
  | refl => exact .refl s
  | tail _ h ih =>
    rcases Shape.of_act h with h | ⟨t, n, h, -⟩ | ⟨t, isconfirmed, am, o, ⟨-, -, -, h⟩, -⟩
    · exact ih.trans h
    · exact h.elim
    · exact h.elim

section Steps
variable {render : Text → Text} {satoshis : Text → BitVec 64} {gp : GatewayInfo} {lps lps' : Replicas} {k : Nat}
  {e : Step}

theorem step_credits (hwf : ∀ j, (lps j).WF) (he : ∀ coinid txid sight decoded, e ≠ .scan coinid txid sight decoded)
    (h : step render satoshis gp lps e = some lps') : credits (lps' k) = credits (lps k) := by
  have hquiet : Follows gp (fun _ => quietRules) lps lps' := by
    refine step_acts hwf ?_ h
    cases e with
    | scan coinid txid sight decoded => exact (he _ _ _ _ rfl).elim
    | bind sender nxt64bits argjson => exact fun _ _ => trivial
    | assetevent | depositConfirmed | retry | transfer => trivial
  exact credits_of_shape (hquiet k).shape

theorem scan_booked {c : Coin} {s s' : Replica} {txid : Text} {sight : Sighting} {decoded : Option Json} (hwf : s.WF)
    (hs : Booked c s) (h : scan satoshis c s txid sight decoded = some s') : Booked c s' := by
  unfold scan at h
  split at h
  · obtain rfl := Option.some.inj h
    exact hs
  · have hadd : (s.addTp txid).WF := hwf.of_shape (.of_frame (.addTp txid))
    have hcredits := updateCoinValues_credits isSome_addTp_self hadd h
    obtain ⟨-, -, hposted⟩ := updateCoinValues_books isSome_addTp_self h
    intro owner
    rw [hcredits, amounts_append, amounts_creditsFor, amountTo_append, hposted.totalOf, postedTo_postings]
    exact congrArg (· + _) (hs owner)

/-- **Every step keeps the deposits booked.** -/
theorem step_booked (hdaemon : (gp.coin k).daemon) (hwf : ∀ j, (lps j).WF) (hs : Booked (gp.coin k) (lps k))
    (h : step render satoshis gp lps e = some lps') : Booked (gp.coin k) (lps' k) := by
  by_cases he : ∀ coinid txid sight decoded, e ≠ .scan coinid txid sight decoded
  · intro owner
    rw [(step_sameDeposits hdaemon he h).deposits, step_credits hwf he h]
    exact hs owner
  · push Not at he
    obtain ⟨coinid, txid, sight, decoded, rfl⟩ := he
    cases step_handled h with
    | idle => exact hs
    | scan hscan =>
      by_cases hk : k = coinid
      · subst hk
        rw [Function.update_self]
        exact scan_booked (hwf k) hs hscan
      · rwa [Function.update_of_ne hk]

/-- What the steps of a node keep. -/
structure BookedNode (gp : GatewayInfo) (k : Nat) (lps : Replicas) : Prop where
  wf : ∀ j, (lps j).WF
  booked : Booked (gp.coin k) (lps k)

theorem booked_init (c : Coin) : Booked c {} := by
  intro owner
  cases owner with
  | none => rfl
  | some key =>
    show 0#64 = if _ then _ else _
    split <;> rfl

end Steps

/-! ## Payments and their credits -/

/-- The address is the text of its number. -/
def Canonical (msig : MultisigAddr) : Prop := msig.nxtAddr = expandNxt64bits (calcNxt64bits msig.nxtAddr)

def canonicalRules : Rules where
  bind := Canonical

/-- Deposits are of the accounts that addresses are bound to, and every payment is for a credit. -/
structure Backed (c : Coin) (s : Replica) : Prop where
  bound : ∀ msig ∈ s.msigs, Canonical msig
  listed : ∀ r ∈ s.xps, ∀ xp, (s.vp r).xp = some xp →
    ∃ msig, xp.msig = some msig ∧ Canonical msig ∧ xp.nxt64bits = calcNxt64bits msig.nxtAddr
  paid : ∀ p ∈ payments s, c.legal ∧
    ∃ d ∈ credits s, d.cointxid = p.cointxid ∧ d.msig.nxtAddr = p.nxtAddr ∧ d.value = p.assetoshis

section Acts
variable {c : Coin} {R : Rules} {s s' : Replica}

theorem decodeMsigjson_canonical {bits : BitVec 64} {obj : Json} {msig : MultisigAddr}
    (h : decodeMsigjson (expandNxt64bits bits) obj = some msig) : Canonical msig := by
  have haddr : msig.nxtAddr = expandNxt64bits bits := by
    have hcopy : safecopy (expandNxt64bits bits) maxNxtaddrLen = expandNxt64bits bits :=
      List.take_of_length_le ((length_expandNxt64bits bits).trans (by decide))
    unfold decodeMsigjson at h
    dsimp only at h
    split at h
    · cases h
    · split at h
      · cases h
      · split at h
        · split at h
          · obtain rfl := Option.some.inj h
            exact hcopy
          · cases h
        · cases h
  unfold Canonical
  rw [haddr, calcNxt64bits_expandNxt64bits]

/-- **Credits stay.** -/
theorem Act.credits_subset (h : Act c R s s') (hwf : s.WF) : credits s ⊆ credits s' := by
  rcases Shape.of_act h with h | ⟨t, n, -, rfl⟩ | ⟨t, isconfirmed, am, o, -, rfl⟩
  · rw [credits_of_shape h]
    exact List.Subset.refl _
  · exact List.Subset.refl _
  · rw [credits_seeOutput hwf]
    exact List.subset_append_left _ _

theorem backed_init (c : Coin) : Backed c {} where
  bound msig h := by simp at h
  listed r h := by simp at h
  paid p h := by simp [payments] at h

theorem Act.backed (h : Act c canonicalRules s s') (hwf : s.WF) (hclean : s.Clean) (hs : Backed c s) : Backed c s' where
  bound := h.bound_forall (fun _ hbind => hbind) hs.bound
  listed := by
    refine h.listed_forall (P := fun _ _ xp => ∃ msig, xp.msig = some msig ∧ Canonical msig ∧
      xp.nxt64bits = calcNxt64bits msig.nxtAddr) hwf (fun {t i xp xp'} hfixed hp => ?_)
      (fun t isconfirmed am o msig _ hmsig => ?_) hs.listed
    · rw [show xp'.msig = xp.msig from (congrArg CrosschainInfo.msig hfixed :),
        show xp'.nxt64bits = xp.nxt64bits from (congrArg CrosschainInfo.nxt64bits hfixed :)]
      exact hp
    · exact ⟨msig, hmsig, hs.bound msig (List.mem_of_find?_eq_some hmsig), nxt64bits_newDeposit hmsig⟩
  paid := by
    have hkept {p : Payment} (hp : p ∈ payments s) : c.legal ∧
        ∃ d ∈ credits s', d.cointxid = p.cointxid ∧ d.msig.nxtAddr = p.nxtAddr ∧ d.value = p.assetoshis := by
      obtain ⟨hlegal, d, hd, hmatch⟩ := hs.paid p hp
      exact ⟨hlegal, d, h.credits_subset hwf hd, hmatch⟩
    rcases h.payments_cases with hpay | ⟨r, xp, txid, hr, hxp, -, hlegal, hmark, -, -, hpay⟩
    · rw [hpay]
      exact fun p hp => hkept hp
    · rw [hpay]
      intro p hp
      rcases List.mem_append.mp hp with hp | hp
      · exact hkept hp
      · obtain rfl := List.mem_singleton.mp hp
        obtain ⟨msig, hmsig, hcanonical, hbits⟩ := hs.listed r hr xp hxp
        have hcredit : (⟨(s.vp r).parent, msig, xp.value⟩ : Credit) ∈ credits s :=
          List.mem_filterMap.mpr ⟨r, hr, creditOf_of_some hxp hmsig⟩
        refine ⟨hlegal, _, h.credits_subset hwf hcredit, rfl, ?_, ?_⟩
        · rw [hbits]
          exact hcanonical
        · exact (((hclean r xp hxp).unmarked hmark).2.2).symm

theorem Acts.backed (h : Acts c canonicalRules {} s) :
    s.Clean ∧ Backed c s ∧ (∀ p ∈ payments s, (s.tp p.cointxid).nxtXferbits ≠ 0#64) ∧
      ((payments s).map Payment.cointxid).Nodup := by
  induction h with
  | refl => exact ⟨clean_init, backed_init c, by simp [payments], by simp [payments]⟩
  | tail hacts h ih =>
    obtain ⟨hclean, hbacked, honce⟩ := ih
    have hwf := Acts.wf hacts wf_init
    exact ⟨h.clean hwf hclean, h.backed hwf hclean hbacked, h.marked_once hwf honce⟩

end Acts

/-! ## What is issued -/

/-- Every account is the coin's. -/
def ownedBy (nxtAddr : Text) : Option Text → Bool
  | none => Bool.true
  | some key => acctKey nxtAddr = key

/-- The amounts that were issued to an owner. -/
def issuedTo (s : Replica) (owner : Option Text) : Int :=
  tally (fun p => ownedBy p.nxtAddr owner) (fun p => p.assetoshis.toInt) (payments s) Bool.true

section Solvent
variable {render : Text → Text} {satoshis : Text → BitVec 64} {gp : GatewayInfo} {lps : Replicas} {c : Coin}
  {s : Replica}
  {k : Nat}

theorem amountTo_eq_tally {owner : Option Text} (h : owner = none ∨ c.legal) (ds : List Credit) :
    amountTo c (amounts ds) owner = tally (fun d => ownedBy d.msig.nxtAddr owner) Credit.value ds Bool.true := by
  unfold tally amounts
  cases owner with
  | none => simp [amountTo, amountOf, ownedBy, Function.comp_def]
  | some key =>
    have hlegal : c.legal := h.resolve_left (by simp)
    rw [amountTo_some, if_pos hlegal]
    simp [amountOf, ownedBy, List.filter_map, Function.comp_def]

/-- **Backed and booked is solvent.** -/
theorem Backed.issued_le (hs : Backed c s) (hbooked : Booked c s) (honce : ((payments s).map Payment.cointxid).Nodup)
    (hpos : ∀ d ∈ credits s, 0 ≤ d.value.toInt) (hsum : ((credits s).map fun d => d.value.toInt).sum < 2 ^ 63)
    (owner : Option Text) : issuedTo s owner ≤ (totalOf s .deposit owner).toInt := by
  have hmatched : tally (fun p => ownedBy p.nxtAddr owner) (fun p => p.assetoshis.toNat) (payments s) Bool.true ≤
      tally (fun d => ownedBy d.msig.nxtAddr owner) (fun d => d.value.toNat) (credits s) Bool.true := by
    have hmatch : ∀ p ∈ payments s, ∃ d ∈ credits s, d.cointxid = p.cointxid ∧
        ownedBy d.msig.nxtAddr owner = ownedBy p.nxtAddr owner ∧ p.assetoshis.toNat ≤ d.value.toNat := by
      intro p hp
      obtain ⟨-, d, hd, htxid, haddr, hvalue⟩ := hs.paid p hp
      exact ⟨d, hd, htxid, by rw [haddr], by rw [hvalue]⟩
    exact tally_le_of_matched honce hmatch Bool.true
  have hissued : issuedTo s owner =
      (tally (fun p => ownedBy p.nxtAddr owner) (fun p => p.assetoshis.toNat) (payments s) Bool.true : ℕ) := by
    refine tally_toInt (fun p hp => ?_) Bool.true
    obtain ⟨-, d, hd, -, -, hvalue⟩ := hs.paid p hp
    rw [← hvalue]
    exact hpos d hd
  by_cases howner : owner = none ∨ c.legal
  · have hfits :
        tally (fun d => ownedBy d.msig.nxtAddr owner) (fun d => d.value.toNat) (credits s) Bool.true < 2 ^ 63 := by
      refine (tally_le_sum (credits s) Bool.true).trans_lt ?_
      have hcast : ((credits s).map fun d => d.value.toInt).sum =
          (((credits s).map fun d => d.value.toNat).sum : ℕ) := by
        have hall : tally (fun _ => ()) _ (credits s) () = _ := tally_toInt hpos ()
        simpa [tally] using hall
      omega
    have htotal : (totalOf s .deposit owner).toNat =
        tally (fun d => ownedBy d.msig.nxtAddr owner) (fun d => d.value.toNat) (credits s) Bool.true := by
      rw [hbooked owner, amountTo_eq_tally howner]
      exact toNat_tally_of_lt (by omega)
    have hint : (totalOf s .deposit owner).toInt = (totalOf s .deposit owner).toNat :=
      BitVec.toInt_eq_toNat_of_lt (by omega)
    omega
  · push Not at howner
    have hnone : payments s = [] := List.eq_nil_iff_forall_not_mem.mpr fun p hp => howner.2 (hs.paid p hp).1
    have hzero : totalOf s .deposit owner = 0#64 := by
      obtain ⟨key, rfl⟩ := Option.ne_none_iff_exists'.mp howner.1
      rw [hbooked, amountTo_some, if_neg howner.2]
    unfold issuedTo
    rw [hzero, hnone, tally_nil]
    exact le_rfl

/-- **Solvency.** On a gateway with the daemon of a coin, in every state that can be reached and whose credits are not
negative and sum up to less than `2 ^ 63`, no account was issued more than its deposits, nor were all together. -/
theorem solvent (hreach : Reachable render satoshis gp lps) (hdaemon : (gp.coin k).daemon)
    (hpos : ∀ d ∈ credits (lps k), 0 ≤ d.value.toInt)
    (hsum : ((credits (lps k)).map fun d => d.value.toInt).sum < 2 ^ 63) (owner : Option Text) :
    issuedTo (lps k) owner ≤ (totalOf (lps k) .deposit owner).toInt := by
  obtain ⟨es, hrun⟩ := hreach
  have hallowed : Run.Along (step render satoshis gp) (Allowed satoshis gp fun _ => canonicalRules) init es := by
    refine Run.along_of_forall (fun lps e _ => ?_) _
    cases e with
    | scan coinid txid sight decoded => exact fun _ _ _ _ => ⟨fun _ _ => trivial, trivial⟩
    | bind sender nxt64bits argjson => exact fun msig hmsig => decodeMsigjson_canonical hmsig
    | assetevent | depositConfirmed | retry | transfer => trivial
  obtain ⟨-, hbacked, -, honce⟩ := Acts.backed (run_acts init_wf hallowed hrun k)
  have hbooked : BookedNode gp k lps := by
    refine Run.run_invariant (fun hok hstep hs => ?_) hallowed hrun ⟨init_wf, booked_init _⟩
    exact ⟨(step_acts hs.wf hok hstep).wf hs.wf, step_booked hdaemon hs.wf hs.booked hstep⟩
  exact hbacked.issued_le hbooked.booked honce hpos hsum owner

end Solvent

/-- The deposits are seen, and the first one is paid. -/
def passSteps : List Step := [bindStep, scanStep, .transfer 4 (fun _ => 11#64) fun _ => 0]

def afterPass : Replicas := (Run.run (step id wholeCoins (smallGateway 0)) init passSteps).getD init

theorem run_afterPass : Run.run (step id wholeCoins (smallGateway 0)) init passSteps = some afterPass :=
  Run.run_getD (by decide +kernel) init

theorem solvent_afterPass :
    issuedTo (afterPass 4) (some (acctKey "3".toList)) = 500000000 ∧
      issuedTo (afterPass 4) (some (acctKey "3".toList)) ≤
        (totalOf (afterPass 4) .deposit (some (acctKey "3".toList))).toInt := by
  refine ⟨by decide +kernel, solvent ⟨_, run_afterPass⟩ (by decide) ?_ ?_ _⟩
  · decide +kernel
  · decide +kernel

end NXTServices.Gateway
