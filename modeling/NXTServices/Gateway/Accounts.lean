import Mathlib.Algebra.BigOperators.Group.Finset.Piecewise
import Mathlib.Data.BitVec
import NXTServices.Gateway.State
import NXTServices.Lib.Run

/-!
# The records behind the accounts: `ensure_coin_acct` of `multifind.h`

`Replica.accts` gives each account of a coin one record. In the program an account holds an array of
records, one for each coin it has met, which grows on demand.

* `ensureCoinAcct`, `Books.getCoinAcct`, `Books.updateBalanceInfo` : the records as the program finds and
  writes them, for all coins together;
* `BooksBalance` : a coin's totals are the sums over its records, and every record is recalculated;
* `updates_balance` : every sequence of updates keeps the books in balance;
* `Shows` : a `Replica` is what the books look like from one coin.
-/

namespace NXTServices.Gateway

/-- `struct coin_acct` with its `coinid`. -/
structure CoinAcctRecord where
  coinid : Nat
  acct : CoinAcct := {}

/-- The array `coinaccts` of a `struct NXT_acct`. -/
abbrev NXTAcct := List CoinAcctRecord

/-- The index of the coin's record, and the array, which may have grown. -/
def ensureCoinAcct (np : NXTAcct) (coinid : Nat) : Nat × NXTAcct :=
  match np.findIdx? fun ap => ap.coinid = coinid with
  | some i => (i, np)
  | none => (np.length, np ++ [{ coinid := coinid }])

/-- `funds` of the coins that the node keeps, and the accounts by the addresses of their records. -/
structure Books (ρ : Type) where
  replicants : Nat → Option BalanceInfo
  nxtAccts : ρ → NXTAcct := fun _ => []

section
variable {ρ : Type} [DecidableEq ρ] (getNXTacct : Text → ρ)

/-- The account and the index of the record; null for a coin without a name. -/
def Books.getCoinAcct (b : Books ρ) (coinid : Nat) (nxtAddr : Text) : Option (ρ × Nat) × Books ρ :=
  if coinidStr coinid = illegalCoin then (none, b)
  else
    let np := getNXTacct nxtAddr
    let found := ensureCoinAcct (b.nxtAccts np) coinid
    (some (np, found.1), { b with nxtAccts := Function.update b.nxtAccts np found.2 })

/-- A call of `update_balance_info`. -/
structure BalanceUpdate where
  type : BalanceType
  coinid : Nat
  nxtAddr : Text
  value : BitVec 64

def CoinAcctRecord.update (ap : CoinAcctRecord) (type : BalanceType) (value : BitVec 64) : CoinAcctRecord :=
  { ap with acct := { ap.acct with funds := ap.acct.funds.update type value } }

/-- A coin that the node does not keep is a step through null. -/
def Books.updateBalanceInfo (b : Books ρ) (u : BalanceUpdate) : Option (Books ρ) :=
  (b.replicants u.coinid).map fun bp =>
    let b := { b with replicants := Function.update b.replicants u.coinid (some (bp.update u.type u.value)) }
    match b.getCoinAcct getNXTacct u.coinid u.nxtAddr with
    | (some (np, i), b) =>
      { b with nxtAccts := Function.update b.nxtAccts np ((b.nxtAccts np).modify i fun ap => ap.update u.type u.value) }
    | (none, b) => b

end

/-! ## One account -/

/-- The total that an update of the type adds to. -/
def BalanceInfo.total (bp : BalanceInfo) : BalanceType → BitVec 64
  | .deposit => bp.deposits
  | .depositTransfer => bp.transfers
  | .withdrawTransfer => bp.withdraws
  | .moneysent => bp.moneysends

/-- What `recalc_balance_info` computes is up to date. -/
structure BalanceInfo.Recalculated (bp : BalanceInfo) : Prop where
  remainingTransfers : bp.remainingTransfers = bp.deposits - bp.transfers
  remainingMoneysends : bp.remainingMoneysends = bp.withdraws - bp.moneysends
  balance : bp.balance = bp.deposits - bp.withdraws

theorem BalanceInfo.total_update (bp : BalanceInfo) (type type' : BalanceType) (value : BitVec 64) :
    (bp.update type value).total type' = bp.total type' + if type' = type then value else 0 := by
  cases type <;> cases type' <;> simp [BalanceInfo.update, recalcBalanceInfo, BalanceInfo.total]

theorem BalanceInfo.update_recalculated (bp : BalanceInfo) (type : BalanceType) (value : BitVec 64) :
    (bp.update type value).Recalculated := by
  cases type <;> exact ⟨rfl, rfl, rfl⟩

theorem BalanceInfo.blank_recalculated : ({} : BalanceInfo).Recalculated := ⟨by rfl, by rfl, by rfl⟩

/-- The record of a coin is found or made, and written. -/
def modifyCoinAcct (np : NXTAcct) (coinid : Nat) (f : CoinAcctRecord → CoinAcctRecord) : NXTAcct :=
  (ensureCoinAcct np coinid).2.modify (ensureCoinAcct np coinid).1 f

/-- The sum of a field over the records of a coin. -/
def coinTotal (coinid : Nat) (type : BalanceType) (np : NXTAcct) : BitVec 64 :=
  ((np.filter fun ap => ap.coinid = coinid).map fun ap => ap.acct.funds.total type).sum

section Account
variable {np : NXTAcct} {coinid : Nat} {f : CoinAcctRecord → CoinAcctRecord}

theorem modifyCoinAcct_nil : modifyCoinAcct [] coinid f = [f { coinid := coinid }] := rfl

theorem modifyCoinAcct_cons (ap : CoinAcctRecord) :
    modifyCoinAcct (ap :: np) coinid f =
      if ap.coinid = coinid then f ap :: np else ap :: modifyCoinAcct np coinid f := by
  unfold modifyCoinAcct ensureCoinAcct
  rw [List.findIdx?_cons]
  by_cases h : ap.coinid = coinid
  · simp [h]
  · cases hfind : np.findIdx? fun ap => ap.coinid = coinid <;> simp [h]

theorem coinid_modifyCoinAcct (hf : ∀ ap, (f ap).coinid = ap.coinid) :
    (modifyCoinAcct np coinid f).map CoinAcctRecord.coinid =
      if coinid ∈ np.map CoinAcctRecord.coinid then np.map CoinAcctRecord.coinid
      else np.map CoinAcctRecord.coinid ++ [coinid] := by
  induction np with
  | nil => simp [modifyCoinAcct_nil, hf]
  | cons ap np ih =>
    rw [modifyCoinAcct_cons]
    by_cases h : ap.coinid = coinid
    · simp [h, hf]
    · rw [if_neg h, List.map_cons, ih]
      by_cases hmem : coinid ∈ np.map CoinAcctRecord.coinid
      · rw [if_pos hmem, if_pos (by simp [hmem])]
        rfl
      · rw [if_neg hmem, if_neg (by simpa [Ne.symm h] using hmem)]
        rfl

theorem nodup_modifyCoinAcct (hf : ∀ ap, (f ap).coinid = ap.coinid) (h : (np.map CoinAcctRecord.coinid).Nodup) :
    ((modifyCoinAcct np coinid f).map CoinAcctRecord.coinid).Nodup := by
  rw [coinid_modifyCoinAcct hf]
  split
  · exact h
  · next hmem =>
    refine List.nodup_append.mpr ⟨h, List.nodup_singleton coinid, fun a ha b hb hab => hmem ?_⟩
    rw [← List.mem_singleton.mp hb, ← hab]
    exact ha

theorem forall_modifyCoinAcct {P : CoinAcctRecord → Prop} (h : ∀ ap ∈ np, P ap) (hf : ∀ ap, P (f ap)) :
    ∀ ap ∈ modifyCoinAcct np coinid f, P ap := by
  induction np with
  | nil => simpa [modifyCoinAcct_nil] using hf _
  | cons ap np ih =>
    obtain ⟨hhead, htail⟩ := List.forall_mem_cons.mp h
    rw [modifyCoinAcct_cons]
    split
    · exact List.forall_mem_cons.mpr ⟨hf ap, htail⟩
    · exact List.forall_mem_cons.mpr ⟨hhead, ih htail⟩

theorem find_modifyCoinAcct (hf : ∀ ap, (f ap).coinid = ap.coinid) (k : Nat) :
    (modifyCoinAcct np coinid f).find? (fun ap => ap.coinid = k) =
      if k = coinid then some (f ((np.find? fun ap => ap.coinid = k).getD { coinid := coinid }))
      else np.find? fun ap => ap.coinid = k := by
  induction np with
  | nil =>
    rw [modifyCoinAcct_nil]
    by_cases h : coinid = k
    · simp [hf, h]
    · simp [hf, h, Ne.symm h]
  | cons ap np ih =>
    rw [modifyCoinAcct_cons]
    by_cases h : ap.coinid = coinid
    · by_cases hk : coinid = k
      · simp [h, hf, hk]
      · simp [h, hf, hk, Ne.symm hk]
    · by_cases hk : ap.coinid = k
      · subst hk
        simp [h]
      · rw [if_neg h]
        simp only [List.find?_cons, hk, decide_false]
        exact ih

theorem coinTotal_cons (k : Nat) (type : BalanceType) (ap : CoinAcctRecord) :
    coinTotal k type (ap :: np) = (if ap.coinid = k then ap.acct.funds.total type else 0) + coinTotal k type np := by
  unfold coinTotal
  by_cases h : ap.coinid = k <;> simp [h]

/-- **One update of an account** adds to one total of one coin. -/
theorem coinTotal_update (type type' : BalanceType) (value : BitVec 64) (k : Nat) :
    coinTotal k type' (modifyCoinAcct np coinid fun ap => ap.update type value) =
      coinTotal k type' np + if k = coinid ∧ type' = type then value else 0 := by
  have hone (ap : CoinAcctRecord) (h : ap.coinid = coinid) :
      (if (ap.update type value).coinid = k then (ap.update type value).acct.funds.total type' else 0) =
        (if ap.coinid = k then ap.acct.funds.total type' else 0) + if k = coinid ∧ type' = type then value else 0 := by
    show (if ap.coinid = k then (ap.acct.funds.update type value).total type' else 0) = _
    rw [BalanceInfo.total_update, h]
    by_cases hk : coinid = k
    · simp [hk]
    · simp [hk, Ne.symm hk]
  induction np with
  | nil =>
    rw [modifyCoinAcct_nil, coinTotal_cons, hone _ rfl]
    cases type' <;> simp [coinTotal, BalanceInfo.total]
  | cons ap np ih =>
    rw [modifyCoinAcct_cons, coinTotal_cons]
    by_cases h : ap.coinid = coinid
    · rw [if_pos h, coinTotal_cons, hone ap h]
      ring
    · rw [if_neg h, coinTotal_cons, ih]
      ring

end Account

/-! ## The books -/

section
variable {ρ : Type} [DecidableEq ρ] {getNXTacct : Text → ρ} {b b' : Books ρ} {u : BalanceUpdate}

/-- **What one update does**: to the coin's totals, and, for a coin with a name, to one record of the
account. -/
theorem updateBalanceInfo_cases (h : b.updateBalanceInfo getNXTacct u = some b') :
    ∃ bp, b.replicants u.coinid = some bp ∧
      b'.replicants = Function.update b.replicants u.coinid (some (bp.update u.type u.value)) ∧
      b'.nxtAccts = if coinidStr u.coinid = illegalCoin then b.nxtAccts else
        Function.update b.nxtAccts (getNXTacct u.nxtAddr) (modifyCoinAcct (b.nxtAccts (getNXTacct u.nxtAddr)) u.coinid
          fun ap => ap.update u.type u.value) := by
  obtain ⟨bp, hbp, rfl⟩ := Option.map_eq_some_iff.mp h
  refine ⟨bp, hbp, ?_⟩
  unfold Books.getCoinAcct
  by_cases hname : coinidStr u.coinid = illegalCoin
  · simp [hname]
  · simp [hname, modifyCoinAcct]

/-- The books of a node: `K` are the accounts that have been met. -/
structure BooksBalance (K : Finset ρ) (b : Books ρ) : Prop where
  met : ∀ np ∉ K, b.nxtAccts np = []
  unique : ∀ np, ((b.nxtAccts np).map CoinAcctRecord.coinid).Nodup
  total : ∀ (coinid : Nat) bp, coinidStr coinid ≠ illegalCoin → b.replicants coinid = some bp →
    ∀ type, bp.total type = ∑ np ∈ K, coinTotal coinid type (b.nxtAccts np)
  coin : ∀ coinid bp, b.replicants coinid = some bp → bp.Recalculated
  record : ∀ np, ∀ ap ∈ b.nxtAccts np, ap.acct.funds.Recalculated

theorem sum_coinTotal_update {K : Finset ρ} {np : ρ} (hnp : np ∈ K) (accts : ρ → NXTAcct) (coinid k : Nat)
    (type type' : BalanceType) (value : BitVec 64) :
    ∑ q ∈ K, coinTotal k type' (Function.update accts np
        (modifyCoinAcct (accts np) coinid fun ap => ap.update type value) q) =
      ∑ q ∈ K, coinTotal k type' (accts q) + if k = coinid ∧ type' = type then value else 0 := by
  have hone (q : ρ) : coinTotal k type' (Function.update accts np
        (modifyCoinAcct (accts np) coinid fun ap => ap.update type value) q) =
      coinTotal k type' (accts q) + if q = np then (if k = coinid ∧ type' = type then value else 0) else 0 := by
    by_cases hq : q = np
    · subst hq
      rw [Function.update_self, coinTotal_update, if_pos rfl]
    · rw [Function.update_of_ne hq, if_neg hq, add_zero]
  rw [Finset.sum_congr rfl fun q _ => hone q, Finset.sum_add_distrib, Finset.sum_ite_eq' K np, if_pos hnp]

omit [DecidableEq ρ] in
/-- A coin's totals before an update. -/
theorem total_replicants {bp bp' : BalanceInfo} (hbp : b.replicants u.coinid = some bp)
    (hreplicants : b'.replicants = Function.update b.replicants u.coinid (some (bp.update u.type u.value)))
    {k : Nat} (hk : b'.replicants k = some bp') :
    ∃ old, b.replicants k = some old ∧ ∀ type,
      bp'.total type = old.total type + if k = u.coinid ∧ type = u.type then u.value else 0 := by
  rw [hreplicants] at hk
  by_cases h : k = u.coinid
  · subst h
    rw [Function.update_self] at hk
    obtain rfl := Option.some.inj hk
    refine ⟨bp, hbp, fun type => ?_⟩
    rw [BalanceInfo.total_update]
    simp
  · rw [Function.update_of_ne h] at hk
    exact ⟨bp', hk, fun type => by simp [h]⟩

omit [DecidableEq ρ] in
theorem recalculated_replicants {bp bp' : BalanceInfo}
    (hreplicants : b'.replicants = Function.update b.replicants u.coinid (some (bp.update u.type u.value)))
    {k : Nat} (hk : b'.replicants k = some bp') : bp'.Recalculated ∨ b.replicants k = some bp' := by
  rw [hreplicants] at hk
  by_cases h : k = u.coinid
  · subst h
    rw [Function.update_self] at hk
    obtain rfl := Option.some.inj hk
    exact .inl (bp.update_recalculated u.type u.value)
  · rw [Function.update_of_ne h] at hk
    exact .inr hk

theorem BooksBalance.update {K : Finset ρ} (hK : getNXTacct u.nxtAddr ∈ K)
    (h : b.updateBalanceInfo getNXTacct u = some b') (hb : BooksBalance K b) : BooksBalance K b' := by
  obtain ⟨bp, hbp, hreplicants, haccts⟩ := updateBalanceInfo_cases h
  have hcoin : ∀ k bp', b'.replicants k = some bp' → bp'.Recalculated :=
    fun k bp' hk => (recalculated_replicants hreplicants hk).elim id (hb.coin k bp')
  by_cases hname : coinidStr u.coinid = illegalCoin
  · rw [if_pos hname] at haccts
    refine ⟨haccts ▸ hb.met, haccts ▸ hb.unique, fun k bp' hlegal hk type => ?_, hcoin, haccts ▸ hb.record⟩
    obtain ⟨old, hold, htotal⟩ := total_replicants hbp hreplicants hk
    have hne : k ≠ u.coinid := by
      rintro rfl
      exact hlegal hname
    rw [htotal, haccts, hb.total k old hlegal hold]
    simp [hne]
  · rw [if_neg hname] at haccts
    refine ⟨fun np hnp => ?_, fun np => ?_, fun k bp' hlegal hk type => ?_, hcoin, fun np => ?_⟩
    · have hne : np ≠ getNXTacct u.nxtAddr := by
        rintro rfl
        exact hnp hK
      rw [haccts, Function.update_of_ne hne]
      exact hb.met np hnp
    · rw [haccts, Function.update_apply]
      split
      · exact nodup_modifyCoinAcct (fun _ => rfl) (hb.unique _)
      · exact hb.unique np
    · obtain ⟨old, hold, htotal⟩ := total_replicants hbp hreplicants hk
      rw [htotal, haccts, sum_coinTotal_update hK, hb.total k old hlegal hold]
    · rw [haccts, Function.update_apply]
      split
      · exact forall_modifyCoinAcct (hb.record _) fun ap => ap.acct.funds.update_recalculated u.type u.value
      · exact hb.record np

/-- A node that keeps some coins and has met no account. -/
def opened (ρ : Type) (keeps : Nat → Bool) : Books ρ :=
  { replicants := fun coinid => if keeps coinid then some {} else none }

omit [DecidableEq ρ] in
theorem opened_balance (keeps : Nat → Bool) (K : Finset ρ) : BooksBalance K (opened ρ keeps) := by
  have hblank : ∀ coinid bp, (opened ρ keeps).replicants coinid = some bp → bp = {} := by
    intro coinid bp hbp
    simp only [opened] at hbp
    split at hbp
    · exact (Option.some.inj hbp).symm
    · cases hbp
  refine ⟨fun _ _ => rfl, fun _ => List.nodup_nil, fun k bp _ hk type => ?_, fun k bp hk => ?_, fun _ ap hap => ?_⟩
  · rw [hblank k bp hk]
    cases type <;> simp [BalanceInfo.total, opened, coinTotal]
  · rw [hblank k bp hk]
    exact BalanceInfo.blank_recalculated
  · cases hap

/-- **Every sequence of updates keeps the books in balance.** -/
theorem updates_balance (getNXTacct : Text → ρ) (keeps : Nat → Bool) {us : List BalanceUpdate}
    (hrun : Run.run (fun b u => b.updateBalanceInfo getNXTacct u) (opened ρ keeps) us = some b) :
    BooksBalance (us.map fun u => getNXTacct u.nxtAddr).toFinset b := by
  have hmet : ∀ (b : Books ρ), ∀ u ∈ us, getNXTacct u.nxtAddr ∈ (us.map fun u => getNXTacct u.nxtAddr).toFinset :=
    fun _ u hu => List.mem_toFinset.mpr (List.mem_map_of_mem hu)
  exact Run.run_invariant (fun hK h hb => hb.update hK h) (Run.along_of_forall hmet _) hrun (opened_balance keeps _)

end

/-- Two deposits and a transfer of one account, and a deposit of another coin to it. -/
def someUpdates : List BalanceUpdate :=
  [⟨.deposit, 4, "3".toList, 5#64⟩, ⟨.deposit, 1, "3".toList, 7#64⟩, ⟨.depositTransfer, 4, "3".toList, 5#64⟩,
    ⟨.deposit, 4, "5".toList, 2#64⟩]

theorem someUpdates_balance :
    ∃ b, Run.run (fun b u => b.updateBalanceInfo acctKey u) (opened Text fun coinid => coinid == 4 || coinid == 1)
      someUpdates = some b ∧ BooksBalance (someUpdates.map fun u => acctKey u.nxtAddr).toFinset b := by
  have hrun : (Run.run (fun b u => b.updateBalanceInfo acctKey u) (opened Text fun coinid => coinid == 4 || coinid == 1)
      someUpdates).isSome := by decide +kernel
  obtain ⟨b, hb⟩ := Option.isSome_iff_exists.mp hrun
  exact ⟨b, hb, updates_balance acctKey _ hb⟩

/-! ## The books as one coin sees them -/

section
variable {b b' : Books Text} {u : BalanceUpdate} {c : Coin} {s : Replica}

/-- The record of a coin, blank until it is made. -/
def Books.acct (b : Books Text) (coinid : Nat) (np : Text) : CoinAcct :=
  (((b.nxtAccts np).find? fun ap => ap.coinid = coinid).getD { coinid := coinid }).acct

/-- `funds` and `accts` of the replica are those of the coin in the books. -/
structure Shows (c : Coin) (b : Books Text) (s : Replica) : Prop where
  funds : b.replicants c.coinid = some s.funds
  accts : c.legal → s.accts = b.acct c.coinid

theorem acct_updateBalanceInfo (h : b.updateBalanceInfo acctKey u = some b') (hname : coinidStr u.coinid ≠ illegalCoin)
    (k : Nat) (np : Text) : b'.acct k np = if k = u.coinid ∧ np = acctKey u.nxtAddr then
      { b.acct k np with funds := (b.acct k np).funds.update u.type u.value } else b.acct k np := by
  obtain ⟨bp, -, -, haccts⟩ := updateBalanceInfo_cases h
  rw [if_neg hname] at haccts
  unfold Books.acct
  rw [haccts]
  by_cases hnp : np = acctKey u.nxtAddr
  · subst hnp
    rw [Function.update_self, find_modifyCoinAcct (f := fun ap => ap.update u.type u.value) fun _ => rfl]
    by_cases hk : k = u.coinid
    · subst hk
      simp [CoinAcctRecord.update]
    · simp [hk]
  · rw [Function.update_of_ne hnp, if_neg (fun hboth => hnp hboth.2)]

/-- **An update of the replica is one of the books**, seen from its coin. -/
theorem updateBalanceInfo_shows {type : BalanceType} {nxtAddr : Text} {value : BitVec 64}
    (h : b.updateBalanceInfo acctKey ⟨type, c.coinid, nxtAddr, value⟩ = some b') (hs : Shows c b s) :
    Shows c b' (updateBalanceInfo c s type nxtAddr value) := by
  obtain ⟨bp, hbp, hreplicants, -⟩ := updateBalanceInfo_cases h
  refine ⟨?_, fun hlegal => ?_⟩
  · obtain rfl := Option.some.inj (hbp.symm.trans hs.funds)
    rw [hreplicants, Function.update_self]
    rfl
  · have hname : coinidStr c.coinid ≠ illegalCoin := by simpa [Coin.legal] using hlegal
    funext np
    rw [acct_updateBalanceInfo h hname, ← hs.accts hlegal]
    simp only [updateBalanceInfo_accts, hlegal, if_true, Replica.modifyAcct, Function.update_apply]
    by_cases hnp : np = acctKey nxtAddr
    · subst hnp
      simp
    · simp [hnp]

theorem updateBalanceInfo_shows_of_ne (h : b.updateBalanceInfo acctKey u = some b') (hne : c.coinid ≠ u.coinid)
    (hs : Shows c b s) : Shows c b' s := by
  obtain ⟨bp, -, hreplicants, haccts⟩ := updateBalanceInfo_cases h
  refine ⟨by rw [hreplicants, Function.update_of_ne hne, hs.funds], fun hlegal => ?_⟩
  rw [hs.accts hlegal]
  funext np
  by_cases hname : coinidStr u.coinid = illegalCoin
  · rw [if_pos hname] at haccts
    rw [Books.acct, Books.acct, haccts]
  · rw [acct_updateBalanceInfo h hname, if_neg fun hboth => hne hboth.1]

end
end NXTServices.Gateway
