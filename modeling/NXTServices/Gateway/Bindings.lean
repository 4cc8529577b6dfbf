import NXTServices.Gateway.Event
import NXTServices.Lib.Tally
import NXTServices.Lib.Upsert

/-!
# The deposit addresses of a coin and of its accounts: `update_acct_binding` of `multisig.h`

* `pubkeycmp`, `msigcmp` : the comparison of two multisig addresses;
* `identity`, `sameMsig_iff`, `msigcmp_eq_zero_iff` : what it compares;
* `bindAll` : the bindings of a run;
* `Bound`, `updateAcctBinding_bound`, `bound_bindAll` : the lists of the coin and of its accounts hold the first binding
  of each address, which one binding preserves;
* `bindAll_consistent` : what follows for the lists, their lengths and the search.
-/

namespace NXTServices.Gateway
open Upsert (rows rows_concat upsert_keep find?_keep mem_map_key_rows nodup_rows)
open Tally (tally sum_tally)

/-! ## Comparing addresses -/

def pubkeycmp (ref cmp : PubkeyInfo) : Int :=
  if ref.pubkey ≠ cmp.pubkey then 1
  else if ref.coinaddr ≠ cmp.coinaddr then 2
  else if ref.server ≠ cmp.server then 3
  else 0

/-- A null reference is `none`. -/
def msigcmp (ref : Option MultisigAddr) (msig : MultisigAddr) : Int :=
  match ref with
  | none => -1
  | some ref =>
    if ref.multisigaddr ≠ msig.multisigaddr then 1
    else if ref.nxtAddr ≠ msig.nxtAddr then 2
    else if ref.redeemScript ≠ msig.redeemScript then 3
    else
      match (ref.pubkeys.zip msig.pubkeys).findIdx? fun p => pubkeycmp p.1 p.2 ≠ 0 with
      | some i => 4 + i
      | none => 0

/-- What is compared. -/
def identity (msig : MultisigAddr) : Text × Text × Text × List PubkeyInfo :=
  (msig.multisigaddr, msig.nxtAddr, msig.redeemScript, msig.pubkeys)

theorem sameMsig_iff (ref msig : MultisigAddr) : sameMsig ref msig ↔ identity ref = identity msig := by
  simp only [sameMsig, identity, Bool.and_eq_true, beq_iff_eq, Prod.mk.injEq, and_assoc]

theorem pubkeycmp_eq_zero_iff (ref cmp : PubkeyInfo) : pubkeycmp ref cmp = 0 ↔ ref = cmp := by
  obtain ⟨pubkey, coinaddr, server⟩ := ref
  obtain ⟨pubkey', coinaddr', server'⟩ := cmp
  rw [pubkeycmp, PubkeyInfo.mk.injEq]
  grind

/-- Addresses of as many gateways are compared as `sameMsig` says. -/
theorem msigcmp_eq_zero_iff {ref msig : MultisigAddr} (h : ref.pubkeys.length = msig.pubkeys.length) :
    msigcmp (some ref) msig = 0 ↔ sameMsig ref msig := by
  have hpubkeys : ((ref.pubkeys.zip msig.pubkeys).findIdx? fun p => pubkeycmp p.1 p.2 ≠ 0) = none ↔
      ref.pubkeys = msig.pubkeys := by
    rw [List.findIdx?_eq_none_iff, ← List.forall₂_eq_eq_eq, List.forall₂_iff_zip]
    constructor
    · intro hall
      refine ⟨h, fun {a b} hmem => ?_⟩
      simpa [pubkeycmp_eq_zero_iff] using hall (a, b) hmem
    · rintro ⟨-, hall⟩ ⟨a, b⟩ hmem
      simpa [pubkeycmp_eq_zero_iff] using hall hmem
  rw [sameMsig_iff, identity, identity, Prod.mk.injEq, Prod.mk.injEq, Prod.mk.injEq, ← hpubkeys, msigcmp]
  by_cases haddr : ref.multisigaddr = msig.multisigaddr
  · by_cases hnxt : ref.nxtAddr = msig.nxtAddr
    · by_cases hscript : ref.redeemScript = msig.redeemScript
      · cases hfind : (ref.pubkeys.zip msig.pubkeys).findIdx? fun p => pubkeycmp p.1 p.2 ≠ 0 with
        | none => simp [haddr, hnxt, hscript]
        | some i =>
          simp only [haddr, hnxt, hscript, not_true_eq_false, ne_eq, if_false, true_and, reduceCtorEq, iff_false]
          omega
      · simp [haddr, hnxt, hscript]
    · simp [haddr, hnxt]
  · simp [haddr]

/-! ## One binding after the other -/

/-- The bindings `binds` of a coin, each for the account that its address names. -/
def bindAll (c : Coin) (binds : List MultisigAddr) : Replica :=
  binds.foldl (fun s msig => updateAcctBinding c s msig.nxtAddr msig) {}

/-- The coin has the first binding of each address, and an account those of them that name it. -/
structure Bound (c : Coin) (binds : List MultisigAddr) (s : Replica) : Prop where
  msigs : s.msigs = if c.legal then rows identity (fun y _ => y) binds else []
  accts : ∀ key, (s.accts key).msigs = s.msigs.filter fun msig => acctKey msig.nxtAddr = key

section
variable {c : Coin} {binds : List MultisigAddr} {s : Replica}

theorem Bound.any_sameMsig (h : Bound c binds s) (msig : MultisigAddr) :
    (s.accts (acctKey msig.nxtAddr)).msigs.any (sameMsig · msig) ↔ identity msig ∈ s.msigs.map identity := by
  rw [h.accts, List.any_eq_true, List.mem_map]
  constructor
  · rintro ⟨ref, hmem, hsame⟩
    exact ⟨ref, List.mem_of_mem_filter hmem, (sameMsig_iff ref msig).mp hsame⟩
  · rintro ⟨ref, hmem, hsame⟩
    have hnxt : ref.nxtAddr = msig.nxtAddr := congrArg (fun i => i.2.1) hsame
    exact ⟨ref, List.mem_filter.mpr ⟨hmem, decide_eq_true (congrArg acctKey hnxt)⟩, (sameMsig_iff ref msig).mpr hsame⟩

theorem updateAcctBinding_eq (hlegal : c.legal) (h : Bound c binds s) (msig : MultisigAddr) :
    updateAcctBinding c s msig.nxtAddr msig =
      if identity msig ∈ s.msigs.map identity then s else addMultisigAddr s msig.nxtAddr msig := by
  have hacct : getCoinAcct c s msig.nxtAddr = some (s.accts (acctKey msig.nxtAddr)) := if_pos hlegal
  rw [updateAcctBinding, hacct]
  exact if_congr (h.any_sameMsig msig) rfl rfl

theorem updateAcctBinding_illegal (hlegal : ¬ c.legal) (nxtAddr : Text) (msig : MultisigAddr) :
    updateAcctBinding c s nxtAddr msig = s := by
  have hacct : getCoinAcct c s nxtAddr = none := if_neg hlegal
  rw [updateAcctBinding, hacct]

theorem addMultisigAddr_accts (msig : MultisigAddr)
    (h : ∀ key, (s.accts key).msigs = s.msigs.filter fun msig => acctKey msig.nxtAddr = key) (key : Text) :
    ((addMultisigAddr s msig.nxtAddr msig).accts key).msigs =
      (addMultisigAddr s msig.nxtAddr msig).msigs.filter fun msig => acctKey msig.nxtAddr = key := by
  show (Function.update s.accts (acctKey msig.nxtAddr)
    { s.accts (acctKey msig.nxtAddr) with msigs := (s.accts (acctKey msig.nxtAddr)).msigs ++ [msig] } key).msigs =
      (s.msigs ++ [msig]).filter _
  rw [List.filter_append, ← h key]
  by_cases hkey : acctKey msig.nxtAddr = key
  · have hnew : [msig].filter (fun msig => acctKey msig.nxtAddr = key) = [msig] :=
      List.filter_cons_of_pos (decide_eq_true hkey)
    rw [hnew, ← hkey, Function.update_self]
  · have hnew : [msig].filter (fun msig => acctKey msig.nxtAddr = key) = [] :=
      List.filter_cons_of_neg (by simpa using hkey)
    rw [hnew, Function.update_of_ne (Ne.symm hkey), List.append_nil]

theorem updateAcctBinding_bound (h : Bound c binds s) (msig : MultisigAddr) :
    Bound c (binds ++ [msig]) (updateAcctBinding c s msig.nxtAddr msig) := by
  have hmsigs := h.msigs
  by_cases hlegal : c.legal
  · rw [if_pos hlegal] at hmsigs
    rw [updateAcctBinding_eq hlegal h]
    by_cases hmem : identity msig ∈ s.msigs.map identity
    · rw [if_pos hmem]
      refine ⟨?_, h.accts⟩
      rw [hmsigs] at hmem
      rw [if_pos hlegal, rows_concat, upsert_keep, if_pos hmem, hmsigs]
    · rw [if_neg hmem]
      refine ⟨?_, addMultisigAddr_accts msig h.accts⟩
      show s.msigs ++ [msig] = _
      rw [hmsigs] at hmem ⊢
      rw [if_pos hlegal, rows_concat, upsert_keep, if_neg hmem]
  · rw [updateAcctBinding_illegal hlegal]
    refine ⟨?_, h.accts⟩
    rw [if_neg hlegal] at hmsigs ⊢
    exact hmsigs

theorem bindAll_concat (c : Coin) (binds : List MultisigAddr) (msig : MultisigAddr) :
    bindAll c (binds ++ [msig]) = updateAcctBinding c (bindAll c binds) msig.nxtAddr msig :=
  List.foldl_concat ..

theorem bound_bindAll (c : Coin) (binds : List MultisigAddr) : Bound c binds (bindAll c binds) := by
  induction binds using List.reverseRecOn with
  | nil =>
    refine ⟨?_, fun key => rfl⟩
    show [] = if c.legal then [] else []
    rw [ite_self]
  | append_singleton binds msig ih =>
    rw [bindAll_concat]
    exact updateAcctBinding_bound ih msig

theorem Bound.length_accts (h : Bound c binds s) {keys : Finset Text}
    (hkeys : ∀ msig ∈ s.msigs, acctKey msig.nxtAddr ∈ keys) :
    ∑ key ∈ keys, (s.accts key).msigs.length = s.msigs.length := by
  have hsum : ∑ key ∈ keys, tally (fun msig : MultisigAddr => acctKey msig.nxtAddr) (fun _ => 1) s.msigs key =
      (s.msigs.map fun _ => 1).sum := sum_tally hkeys
  rw [List.map_const', List.sum_replicate_nat, Nat.mul_one] at hsum
  rw [← hsum]
  apply Finset.sum_congr rfl
  intro key _
  rw [h.accts, tally, List.map_const', List.sum_replicate_nat, Nat.mul_one]

end

/-! ## What holds after the bindings -/

/-- The lists of a coin and of its accounts agree with each other and with what was bound. -/
structure ConsistentMsigs (c : Coin) (binds : List MultisigAddr) (s : Replica) : Prop where
  distinct : s.msigs.Pairwise fun ref msig => msigcmp (some ref) msig ≠ 0
  merged : ∀ key, (s.accts key).msigs = s.msigs.filter fun msig => acctKey msig.nxtAddr = key
  counted : ∀ keys : Finset Text, (∀ msig ∈ binds, acctKey msig.nxtAddr ∈ keys) →
    ∑ key ∈ keys, (s.accts key).msigs.length = s.msigs.length
  repeated : ∀ msig ∈ binds, updateAcctBinding c s msig.nxtAddr msig = s
  found : ∀ addr, (searchMultisigAddrs s addr).isSome ↔ ∃ key, ∃ msig ∈ (s.accts key).msigs, msig.multisigaddr = addr
  earliest : c.legal → ∀ addr, searchMultisigAddrs s addr = binds.find? fun msig => msig.multisigaddr == addr

section
variable {c : Coin} {binds : List MultisigAddr} {s : Replica}

theorem Bound.identity_mem (h : Bound c binds s) {msig : MultisigAddr} (hmsig : msig ∈ s.msigs) :
    identity msig ∈ binds.map identity := by
  rw [h.msigs] at hmsig
  split at hmsig
  · exact (mem_map_key_rows (fun _ _ => rfl) binds _).mp (List.mem_map_of_mem hmsig)
  · cases hmsig

theorem Bound.exists_ref (h : Bound c binds s) {msig : MultisigAddr} (hmsig : msig ∈ s.msigs) :
    ∃ ref ∈ binds, ref.nxtAddr = msig.nxtAddr ∧ ref.pubkeys = msig.pubkeys := by
  obtain ⟨ref, href, hid⟩ := List.mem_map.mp (h.identity_mem hmsig)
  exact ⟨ref, href, congrArg (fun i => i.2.1) hid, congrArg (fun i => i.2.2.2) hid⟩

theorem Bound.nodup (h : Bound c binds s) : (s.msigs.map identity).Nodup := by
  rw [h.msigs]
  split
  · exact nodup_rows (fun _ _ => rfl) binds
  · exact List.nodup_nil

theorem Bound.repeated (h : Bound c binds s) {msig : MultisigAddr} (hmsig : msig ∈ binds) :
    updateAcctBinding c s msig.nxtAddr msig = s := by
  by_cases hlegal : c.legal
  · have hmsigs := h.msigs
    rw [if_pos hlegal] at hmsigs
    rw [updateAcctBinding_eq hlegal h, if_pos]
    rw [hmsigs, mem_map_key_rows fun _ _ => rfl]
    exact List.mem_map_of_mem hmsig
  · exact updateAcctBinding_illegal hlegal _ _

theorem Bound.isSome_search (h : Bound c binds s) (addr : Text) :
    (searchMultisigAddrs s addr).isSome ↔ ∃ key, ∃ msig ∈ (s.accts key).msigs, msig.multisigaddr = addr := by
  rw [searchMultisigAddrs, List.find?_isSome]
  constructor
  · rintro ⟨msig, hmsig, haddr⟩
    refine ⟨acctKey msig.nxtAddr, msig, ?_, beq_iff_eq.mp haddr⟩
    rw [h.accts]
    exact List.mem_filter.mpr ⟨hmsig, decide_eq_true rfl⟩
  · rintro ⟨key, msig, hmsig, haddr⟩
    rw [h.accts] at hmsig
    exact ⟨msig, List.mem_of_mem_filter hmsig, beq_iff_eq.mpr haddr⟩

theorem Bound.search_eq (h : Bound c binds s) (hlegal : c.legal) (addr : Text) :
    searchMultisigAddrs s addr = binds.find? fun msig => msig.multisigaddr == addr := by
  have hkeep : (rows identity (fun y _ => y) binds).find? (fun msig => (identity msig).1 == addr) =
      binds.find? fun msig => (identity msig).1 == addr :=
    find?_keep (fun i : Text × Text × Text × List PubkeyInfo => i.1 == addr) binds
  rw [searchMultisigAddrs, h.msigs, if_pos hlegal]
  exact hkeep

end

/-- **The addresses of a coin and of its accounts are consistent** after any bindings. -/
theorem bindAll_consistent (c : Coin) (binds : List MultisigAddr)
    (hpubkeys : ∀ msig ∈ binds, msig.pubkeys.length = numGateways) : ConsistentMsigs c binds (bindAll c binds) := by
  have hbound := bound_bindAll c binds
  have hlength {msig : MultisigAddr} (h : msig ∈ (bindAll c binds).msigs) : msig.pubkeys.length = numGateways := by
    obtain ⟨ref, href, -, hkeys⟩ := hbound.exists_ref h
    rw [← hkeys]
    exact hpubkeys ref href
  refine ⟨?_, hbound.accts, ?_, fun msig h => hbound.repeated h, hbound.isSome_search, hbound.search_eq⟩
  · refine (List.pairwise_map.mp hbound.nodup).imp_of_mem fun {ref msig} href hmsig hne => ?_
    rw [ne_eq, msigcmp_eq_zero_iff ((hlength href).trans (hlength hmsig).symm), sameMsig_iff]
    exact hne
  · intro keys hkeys
    refine hbound.length_accts fun msig h => ?_
    obtain ⟨ref, href, hnxt, -⟩ := hbound.exists_ref h
    rw [← hnxt]
    exact hkeys ref href

/-- Two addresses of account 3, the first one bound twice. -/
theorem bindAll_consistent_at_3 :
    let msig : MultisigAddr :=
      { nxtAddr := "3".toList, multisigaddr := "addr".toList, pubkeys := [{}, {}, {}], m := 2, n := 3, coinid := 4 }
    let binds := [msig, { msig with redeemScript := "52".toList }, msig]
    ConsistentMsigs { coinid := 4, gatewayid := 0, daemon := true, internalmarker := [] } binds
        (bindAll { coinid := 4, gatewayid := 0, daemon := true, internalmarker := [] } binds) ∧
      (bindAll { coinid := 4, gatewayid := 0, daemon := true, internalmarker := [] } binds).msigs = binds.take 2 :=
  ⟨bindAll_consistent _ _ (by decide), by decide⟩

end NXTServices.Gateway
