import NXTServices.Gateway.Rescan
import NXTServices.Gateway.Totals

/-!
# Internal change

A transaction whose first output pays the internal marker is the gateways' own, and its outputs from number 2 on
are flagged as internal. The flag reaches the deposit of an output after the deposit has been credited, and a
later scan makes the deposit anew.

* `scans`, `brought` : the scans of a transaction, and what outputs bring to an owner in one of them;
* `scans_totalOf` : the totals after any number of scans;
* `ChangeUncounted`, `change_uncounted_iff` : **only the outputs 0 and 1 count as deposits** exactly when no scan is
  confirmed, or the others bring nothing to bound addresses;
* `change_uncounted_iff_unpaid` : and so, for amounts whose sum fits, when they pay nothing to bound addresses.
-/

namespace NXTServices.Gateway
open Json hiding true false

/-- One transaction is scanned again and again. -/
def scans (satoshis : Text → BitVec 64) (c : Coin) (txid : Text) (json : Json) (s : Replica) (sights : List Sighting) :
    Option Replica :=
  Run.run (fun s k => scan satoshis c s txid k (some json)) s sights

/-- What the outputs bring to the deposits of an owner in one scan. -/
def brought (c : Coin) (s : Replica) (os : List Output) (owner : Option Text) (k : Sighting) : BitVec 64 :=
  amountTo c (dueDeposits s (k.isconfirmed c) os) owner

/-- After every scan, the deposits of the coin and of every account have grown by what the outputs 0 and 1 bring. -/
def ChangeUncounted (satoshis : Text → BitVec 64) (c : Coin) (txid : Text) (json vouts : Json) (s : Replica)
    (sights : List Sighting) : Prop :=
  ∀ seen s', seen <+: sights → scans satoshis c txid json s seen = some s' → ∀ owner,
    totalOf s' .deposit owner = totalOf s .deposit owner +
      (seen.map (brought c s ((outputs satoshis c vouts).filter fun o => o.vout < 2) owner)).sum

section
variable {satoshis : Text → BitVec 64} {c : Coin} {s s' : Replica} {owner : Option Text} {k : Sighting}
  {os : List Output}
  {txid : Text} {json vouts : Json} {sights : List Sighting}

theorem dueDeposits_of_confirmed {isconfirmed : Nat} (h : isconfirmed ≠ 0) :
    dueDeposits s isconfirmed os = dueDeposits s 1 os := by
  unfold dueDeposits dueMsig
  simp only [h, one_ne_zero, if_false]

theorem brought_eq :
    brought c s os owner k = if k.isconfirmed c = 0 then 0#64 else amountTo c (dueDeposits s 1 os) owner := by
  unfold brought
  split
  · next h => simp [dueDeposits, dueMsig, h, amountTo_nil]
  · next h => rw [dueDeposits_of_confirmed h]

theorem brought_congr (h : s'.msigs = s.msigs) : brought c s' os owner = brought c s os owner := by
  funext k
  rw [brought, brought, dueDeposits_congr h]

theorem brought_split (n : Nat) :
    brought c s os owner k =
      brought c s (os.filter fun o => o.vout < n) owner k + brought c s (os.filter fun o => n ≤ o.vout) owner k := by
  have hperm := List.filter_append_perm (fun o : Output => decide (o.vout < n)) os
  simp only [← decide_not, Nat.not_lt] at hperm
  unfold brought dueDeposits
  rw [← amountTo_append, ← List.filterMap_append]
  exact amountTo_perm (hperm.symm.filterMap _)

theorem scan_msigs (h : scan satoshis c s txid k (some json) = some s') : s'.msigs = s.msigs := by
  unfold scan at h
  split at h
  · obtain rfl := Option.some.inj h
    rfl
  · obtain ⟨-, hmsigs, -⟩ := updateCoinValues_books isSome_addTp_self h
    exact hmsigs

/-- **The totals after any number of scans** of a transaction. -/
theorem scans_totalOf (htxid : txid ≠ []) (hvouts : getObjectItem json "vout".toList = some vouts)
    (hrun : scans satoshis c txid json s sights = some s') :
    totalOf s' .deposit owner =
      totalOf s .deposit owner + (sights.map (brought c s (outputs satoshis c vouts) owner)).sum := by
  induction sights generalizing s with
  | nil =>
    obtain rfl := Option.some.inj hrun
    simp
  | cons k sights ih =>
    obtain ⟨mid, hmid, hrest⟩ := Option.bind_eq_some_iff.mp hrun
    have hone : totalOf mid .deposit owner = totalOf s .deposit owner + _ := (scan_posted htxid hvouts hmid).totalOf
    rw [postedTo_postings] at hone
    rw [ih hrest, hone, brought_congr (scan_msigs hmid), List.map_cons, List.sum_cons, add_assoc]
    rfl

theorem forall_prefix_sum_eq_zero_iff {E : Type*} {f : E → BitVec 64} {es : List E} :
    (∀ seen, seen <+: es → (seen.map f).sum = 0#64) ↔ ∀ e ∈ es, f e = 0#64 := by
  constructor
  · intro h e he
    obtain ⟨before, after, rfl⟩ := List.append_of_mem he
    have hwith := h (before ++ [e]) ⟨after, by simp⟩
    rwa [List.map_append, List.sum_append, h before ⟨e :: after, rfl⟩, List.map_singleton, List.sum_singleton,
      BitVec.zero_add] at hwith
  · intro h seen hseen
    apply List.sum_eq_zero
    intro x hx
    obtain ⟨e, he, rfl⟩ := List.mem_map.mp hx
    exact h e (hseen.subset he)

theorem sum_brought_split (n : Nat) :
    (sights.map (brought c s os owner)).sum =
      (sights.map (brought c s (os.filter fun o => o.vout < n) owner)).sum +
        (sights.map (brought c s (os.filter fun o => n ≤ o.vout) owner)).sum := by
  induction sights with
  | nil => simp
  | cons k sights ih =>
    simp only [List.map_cons, List.sum_cons]
    rw [ih, brought_split n]
    exact add_add_add_comm ..

/-- **Internal change is not counted** in a run of scans of a transaction exactly when no scan of it is confirmed, or
the outputs from number 2 on bring nothing to bound addresses. -/
theorem change_uncounted_iff (htxid : txid ≠ []) (hvouts : getObjectItem json "vout".toList = some vouts)
    (hrun : (scans satoshis c txid json s sights).isSome) :
    ChangeUncounted satoshis c txid json vouts s sights ↔
      ((∃ k ∈ sights, k.isconfirmed c ≠ 0) → ∀ owner,
        amountTo c (dueDeposits s 1 ((outputs satoshis c vouts).filter fun o => 2 ≤ o.vout)) owner = 0#64) := by
  have htotal {seen : List Sighting} {s' : Replica} (owner : Option Text)
      (h : scans satoshis c txid json s seen = some s') :
      totalOf s' .deposit owner = totalOf s .deposit owner +
          (seen.map (brought c s ((outputs satoshis c vouts).filter fun o => o.vout < 2) owner)).sum ↔
        (seen.map (brought c s ((outputs satoshis c vouts).filter fun o => 2 ≤ o.vout) owner)).sum = 0#64 := by
    rw [scans_totalOf htxid hvouts h, add_right_inj, sum_brought_split 2]
    exact add_eq_left
  have hiff (owner : Option Text) :
      (∀ seen, seen <+: sights →
        (seen.map (brought c s ((outputs satoshis c vouts).filter fun o => 2 ≤ o.vout) owner)).sum = 0#64) ↔
      ∀ k ∈ sights, brought c s ((outputs satoshis c vouts).filter fun o => 2 ≤ o.vout) owner k = 0#64 :=
    forall_prefix_sum_eq_zero_iff
  constructor
  · rintro h ⟨k, hk, hconfirmed⟩ owner
    have hnone := (hiff owner).mp (fun seen hseen => ?_) k hk
    · rwa [brought_eq, if_neg hconfirmed] at hnone
    · obtain ⟨after, rfl⟩ := hseen
      obtain ⟨last, hlast⟩ := Option.isSome_iff_exists.mp hrun
      rw [scans, Run.run_append] at hlast
      obtain ⟨s', hs', -⟩ := Option.bind_eq_some_iff.mp hlast
      exact (htotal owner hs').mp (h seen s' ⟨after, rfl⟩ hs' owner)
  · intro h seen s' hseen hs' owner
    refine (htotal owner hs').mpr ((hiff owner).mpr (fun k hk => ?_) seen hseen)
    rw [brought_eq]
    split
    · rfl
    · next hconfirmed => exact h ⟨k, hk, hconfirmed⟩ owner

/-- For amounts whose sum fits, the change must not be paid to bound addresses. -/
theorem change_uncounted_iff_unpaid (htxid : txid ≠ []) (hvouts : getObjectItem json "vout".toList = some vouts)
    (hfits :
      ((dueDeposits s 1 ((outputs satoshis c vouts).filter fun o => 2 ≤ o.vout)).map fun d => d.2.toNat).sum < 2 ^ 64)
    (hrun : (scans satoshis c txid json s sights).isSome) (hconfirmed : ∃ k ∈ sights, k.isconfirmed c ≠ 0) :
    ChangeUncounted satoshis c txid json vouts s sights ↔
      ∀ o ∈ outputs satoshis c vouts, 2 ≤ o.vout → (searchMultisigAddrs s o.coinaddr).isSome → o.value = 0#64 := by
  rw [change_uncounted_iff htxid hvouts hrun, forall_prop_of_true hconfirmed, amountTo_eq_zero_iff hfits]
  constructor
  · intro h o ho h2 hbound
    obtain ⟨msig, hmsig⟩ := Option.isSome_iff_exists.mp hbound
    refine h (msig, o.value) (List.mem_filterMap.mpr ⟨o, List.mem_filter.mpr ⟨ho, by simpa using h2⟩, ?_⟩)
    simp [dueMsig, hmsig]
  · intro h d hd
    obtain ⟨o, ho, hdue⟩ := List.mem_filterMap.mp hd
    obtain ⟨ho, h2⟩ := List.mem_filter.mp ho
    obtain ⟨msig, hmsig, rfl⟩ := Option.map_eq_some_iff.mp hdue
    rw [dueMsig, if_neg one_ne_zero] at hmsig
    exact h o ho (by simpa using h2) (by rw [hmsig]; rfl)

end

/-- The gateways mark their change with the address `M`. -/
def markedGateway : GatewayInfo := { smallGateway 0 with internalmarker := fun _ => "M".toList }

/-- The outputs of a payment of 4 coins to a bound address, with 7 coins of change. -/
def paymentVouts (change : Text) : Json :=
  .array [voutJson "0".toList "1".toList "M".toList, voutJson "1".toList "4".toList "A".toList,
    voutJson "2".toList "7".toList change]

def paymentTx (change : Text) : Json := .object [("vout".toList, paymentVouts change), ("vin".toList, .array [])]

theorem change_uncounted_twice :
    ChangeUncounted wholeCoins (markedGateway.coin 4) "t5".toList (paymentTx "B".toList) (paymentVouts "B".toList)
      (afterBind 4) [historical, historical] := by
  have hrun : (scans wholeCoins (markedGateway.coin 4) "t5".toList (paymentTx "B".toList) (afterBind 4)
      [historical, historical]).isSome := by decide +kernel
  apply (change_uncounted_iff (by decide) (by rfl) hrun).mpr
  intro _ owner
  have hdue : dueDeposits (afterBind 4) 1
      ((outputs wholeCoins (markedGateway.coin 4) (paymentVouts "B".toList)).filter fun o => 2 ≤ o.vout) = [] := by
    decide +kernel
  rw [hdue, amountTo_nil]

/-- Change to a bound address is credited. -/
theorem not_forall_change_uncounted :
    ¬ ∀ (satoshis : Text → BitVec 64) (c : Coin) (s s' : Replica) (txid : Text) (json vouts obj : Json) (script : Text)
        (k : Sighting),
      txid ≠ [] → getObjectItem json "vout".toList = some vouts → vouts.items.head? = some obj →
      readVout 0 obj = some (c.internalmarker, script) →
      scan satoshis c s txid k (some json) = some s' →
      ∀ owner, totalOf s' .deposit owner = totalOf s .deposit owner +
        brought c s ((outputs satoshis c vouts).filter fun o => o.vout < 2) owner k := by
  intro h
  have hscan : (scan wholeCoins (markedGateway.coin 4) (afterBind 4) "t5".toList historical
      (some (paymentTx "A".toList))).isSome := by decide +kernel
  obtain ⟨s', hs'⟩ := Option.isSome_iff_exists.mp hscan
  have hacct := h wholeCoins (markedGateway.coin 4) (afterBind 4) s' "t5".toList (paymentTx "A".toList)
    (paymentVouts "A".toList) _ "76".toList historical (by decide) (by rfl) (by rfl) (by decide +kernel) hs'
    (some (acctKey "3".toList))
  have hdeposits : (scan wholeCoins (markedGateway.coin 4) (afterBind 4) "t5".toList historical
      (some (paymentTx "A".toList))).map (fun s' => totalOf s' .deposit (some (acctKey "3".toList))) =
      some 1100000000#64 := by decide +kernel
  rw [hs', Option.map_some, Option.some.injEq] at hdeposits
  rw [hdeposits] at hacct
  revert hacct
  decide +kernel

end NXTServices.Gateway
