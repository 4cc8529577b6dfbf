import NXTServices.Gateway.State
import NXTServices.Lib.Least
import NXTServices.Lib.Tally
import Mathlib.Algebra.Order.BigOperators.Group.List
import Mathlib.Order.Bounds.Basic

/-!
# Unspent deposits: `update_unspent_funds` of `multigateway/balances.h`

* `CrosschainEntry`, `CountedAddr`, `UnspentInfo` : what the function reads and writes;
* `Qsort` : a sort that fulfils what the standard says of `qsort`;
* `updateUnspentFunds` : the totals of a coin and of its multisig addresses, and the sorted deposits;
* `Exact`, `updateUnspentFunds_exact` : the totals are those of the entries;
* `Smallest`, `smallest_iff` : when the smallest multisig address is the smallest.
-/

namespace NXTServices.Gateway.Unspent

/-! ## The state -/

/-- The part of `struct crosschain_info` that is read; `msig` and `parent` are pointers. -/
structure CrosschainEntry where
  value : BitVec 64
  msig : Option Nat := none
  parent : Option Nat := none
deriving DecidableEq

/-- `struct multisig_addr` with its totals. -/
structure CountedAddr extends MultisigAddr where
  maxunspent : BitVec 64 := 0#64
  unspent : BitVec 64 := 0#64
  fits : multisigaddr.length < maxCoinaddrLen

/-- `vps` are the first `num` pointers. -/
structure UnspentInfo where
  maxunspent : BitVec 64 := 0#64
  unspent : BitVec 64 := 0#64
  maxavail : BitVec 64 := 0#64
  minavail : BitVec 64 := 0#64
  smallestMsigunspent : BitVec 64 := 0#64
  vps : List Nat := []
  maxvp : Option Nat := none
  minvp : Option Nat := none
  smallestMsig : Text := []
deriving DecidableEq

/-- What the function writes: the coin's record and the multisig addresses. -/
structure Funds where
  up : UnspentInfo
  addrs : Nat → CountedAddr

/-- The standard says how a sorted array looks, and not in which order equal elements stand. -/
structure Qsort (α : Type) where
  run : (α → α → Int) → List α → List α
  perm : ∀ compar l, (run compar l).Perm l
  sorted : ∀ compar l, (∀ a b, compar a b ≤ 0 ∨ compar b a ≤ 0) →
    (∀ a b c, compar a b ≤ 0 → compar b c ≤ 0 → compar a c ≤ 0) →
      (run compar l).Pairwise fun a b => compar a b ≤ 0

def mergeQsort {α : Type} : Qsort α where
  run compar l := l.mergeSort fun a b => compar a b ≤ 0
  perm _ l := l.mergeSort_perm _
  sorted compar l htotal htrans := by
    have hpairwise : (l.mergeSort fun a b => compar a b ≤ 0).Pairwise fun a b => decide (compar a b ≤ 0) = true := by
      apply List.pairwise_mergeSort
      · simpa using htrans
      · simpa using htotal
    exact hpairwise.imp of_decide_eq_true

/-! ## The function -/

section
variable (cv : Nat → CoinValue)

/-- `spent` and `pendingspend` are null. -/
def isFree (vp : CoinValue) : Bool := vp.spent.isNone && vp.pendingspend.isNone

/-- `_cmp_vps`. -/
def cmpVps (a b : Nat) : Int :=
  if (cv a).value.slt (cv b).value then 1 else if (cv b).value.slt (cv a).value then -1 else 0

def sortVps (sort : Qsort Nat) (vps : List Nat) : List Nat := sort.run (cmpVps cv) vps

/-- An entry that counts, for the coin; `r` is its parent. -/
def UnspentInfo.count (up : UnspentInfo) (xp : CrosschainEntry) (r : Nat) : UnspentInfo :=
  let up := { up with maxunspent := up.maxunspent + xp.value }
  if isFree (cv r) then
    { up with
      vps := up.vps ++ [r]
      unspent := up.unspent + xp.value
      maxvp := if up.maxavail.slt xp.value then some r else up.maxvp
      maxavail := if up.maxavail.slt xp.value then xp.value else up.maxavail
      minvp := if up.minavail = 0#64 ∨ xp.value.slt up.minavail then some r else up.minvp
      minavail := if up.minavail = 0#64 ∨ xp.value.slt up.minavail then xp.value else up.minavail }
  else up

/-- An entry that counts, for its multisig address. -/
def countAddr (addrs : Nat → CountedAddr) (xp : CrosschainEntry) (r : Nat) : Nat → CountedAddr :=
  match xp.msig with
  | none => addrs
  | some m =>
    Function.update addrs m
      { addrs m with
        maxunspent := (addrs m).maxunspent + xp.value
        unspent := if isFree (cv r) then (addrs m).unspent + xp.value else (addrs m).unspent }

/-- One round of the loop over the entries, which may be null. -/
def entryStep (s : Funds) (entry : Option CrosschainEntry) : Funds :=
  match entry with
  | none => s
  | some xp =>
    match xp.parent with
    | none => s
    | some r =>
      if 0 < xp.value.toInt then { up := s.up.count cv xp r, addrs := countAddr cv s.addrs xp r } else s

/-- One round of the loop over the multisig addresses, from `minacct` and `msig`. -/
def smallestStep (addrs : Nat → CountedAddr) (kept : BitVec 64 × Option Nat) (m : Nat) : BitVec 64 × Option Nat :=
  if kept.1 = 0#64 ∨ (addrs m).unspent.slt kept.1 then ((addrs m).unspent, some m) else kept

def setSmallest (s : Funds) (msigs : List Nat) : Funds :=
  match (msigs.foldl (smallestStep s.addrs) (0#64, none)).2 with
  | none => s
  | some m =>
    { s with
      up :=
        { s.up with
          smallestMsig := safecopy (s.addrs m).multisigaddr 128
          smallestMsigunspent := (s.addrs m).unspent } }

/-- The record and the addresses before the loops; `smallest_msigunspent` stays. -/
def resetFunds (msigs : List Nat) (s : Funds) : Funds where
  up := { smallestMsigunspent := s.up.smallestMsigunspent }
  addrs m := if m ∈ msigs then { s.addrs m with maxunspent := 0#64, unspent := 0#64 } else s.addrs m

/-- `msigs` are the multisig addresses of the coin, and `xps` the entries. -/
def updateUnspentFunds (sort : Qsort Nat) (msigs : List Nat) (xps : List (Option CrosschainEntry)) (s : Funds) :
    Funds :=
  let s := xps.foldl (entryStep cv) (resetFunds msigs s)
  let s := setSmallest s msigs
  if 1 < s.up.vps.length then { s with up := { s.up with vps := sortVps cv sort s.up.vps } } else s

/-! ## The entries -/

/-- The entries with a positive value. -/
def positive (xps : List (Option CrosschainEntry)) : List CrosschainEntry :=
  (xps.filterMap id).filter fun xp => 0 < xp.value.toInt

/-- Those of them whose output is neither spent nor about to be. -/
def available (xps : List (Option CrosschainEntry)) : List CrosschainEntry :=
  (positive xps).filter fun xp => xp.parent.any fun r => isFree (cv r)

/-- Those of them that have an output. -/
def counted (xps : List (Option CrosschainEntry)) : List CrosschainEntry :=
  (positive xps).filter fun xp => xp.parent.isSome

/-- The entries of a multisig address. -/
def ownOf (m : Nat) (xps : List CrosschainEntry) : List CrosschainEntry := xps.filter fun xp => xp.msig = some m

/-- The sum of the values, as the machine adds them. -/
def sumOf (xps : List CrosschainEntry) : BitVec 64 := (xps.map CrosschainEntry.value).sum

/-- The sum of the values. -/
def total (xps : List CrosschainEntry) : Int := (xps.map fun xp => xp.value.toInt).sum

/-! ## The loop over the entries -/

/-- The records after the entries `all`, of which those of `free` are available, from `s₀`. -/
structure Looped (s₀ s : Funds) (all free : List CrosschainEntry) : Prop where
  maxunspent : s.up.maxunspent = sumOf all
  unspent : s.up.unspent = sumOf free
  vps : s.up.vps = free.filterMap CrosschainEntry.parent
  maxavail_le : 0 ≤ s.up.maxavail.toInt ∧ ∀ xp ∈ free, xp.value.toInt ≤ s.up.maxavail.toInt
  maxavail_mem : s.up.maxavail = 0#64 ∨ ∃ xp ∈ free, xp.value = s.up.maxavail
  minavail : s.up.minavail = ((Least.least (fun xp => xp.value.toInt) free).map CrosschainEntry.value).getD 0#64
  addrMaxunspent : ∀ m, (s.addrs m).maxunspent = (s₀.addrs m).maxunspent + sumOf (ownOf m all)
  addrUnspent : ∀ m, (s.addrs m).unspent = (s₀.addrs m).unspent + sumOf (ownOf m free)

variable {cv}

theorem positive_concat (xps : List (Option CrosschainEntry)) (entry : Option CrosschainEntry) :
    positive (xps ++ [entry]) = positive xps ++ positive [entry] := by
  rw [positive, List.filterMap_append, List.filter_append]
  rfl

theorem available_concat (xps : List (Option CrosschainEntry)) (entry : Option CrosschainEntry) :
    available cv (xps ++ [entry]) = available cv xps ++ available cv [entry] := by
  rw [available, positive_concat, List.filter_append]
  rfl

theorem counted_concat (xps : List (Option CrosschainEntry)) (entry : Option CrosschainEntry) :
    counted (xps ++ [entry]) = counted xps ++ counted [entry] := by
  rw [counted, positive_concat, List.filter_append]
  rfl

theorem sumOf_append (xs ys : List CrosschainEntry) : sumOf (xs ++ ys) = sumOf xs + sumOf ys := by
  rw [sumOf, List.map_append, List.sum_append]
  rfl

theorem sumOf_singleton (xp : CrosschainEntry) : sumOf [xp] = xp.value := by
  rw [sumOf, List.map_singleton, List.sum_singleton]

theorem sumOf_nil : sumOf [] = 0#64 := rfl

theorem slt_iff (x y : BitVec 64) : x.slt y ↔ x.toInt < y.toInt := by rw [BitVec.slt_iff_toInt_lt]

theorem toInt_eq_zero {x : BitVec 64} : x.toInt = 0 ↔ x = 0#64 := by
  rw [← BitVec.toInt_inj]
  rfl

/-- The running minimum of the code is `Least.least`; `v` is the value kept. -/
theorem least_concat_eq {α : Type} (value : α → BitVec 64) (xs : List α) (x : α) {v : BitVec 64}
    (hv : v = ((Least.least (fun a => (value a).toInt) xs).map value).getD 0#64) :
    Least.least (fun a => (value a).toInt) (xs ++ [x]) =
      if v = 0#64 ∨ (value x).slt v then some x else Least.least (fun a => (value a).toInt) xs := by
  rw [Least.least_concat]
  unfold Least.step
  cases hleast : Least.least (fun a => (value a).toInt) xs with
  | none =>
    rw [hleast] at hv
    rw [if_pos (.inl hv)]
  | some a =>
    rw [hleast] at hv
    obtain rfl : v = value a := hv
    simp only [toInt_eq_zero, slt_iff]

section
variable {s₀ s : Funds} {all free : List CrosschainEntry} {xp : CrosschainEntry} {r : Nat}

theorem ownOf_append (m : Nat) (xs ys : List CrosschainEntry) : ownOf m (xs ++ ys) = ownOf m xs ++ ownOf m ys :=
  List.filter_append _ _

theorem ownOf_singleton (m : Nat) (xp : CrosschainEntry) : ownOf m [xp] = if xp.msig = some m then [xp] else [] := by
  by_cases hmsig : xp.msig = some m <;> simp [ownOf, hmsig]

theorem countAddr_maxunspent (addrs : Nat → CountedAddr) (xp : CrosschainEntry) (r m : Nat) :
    (countAddr cv addrs xp r m).maxunspent = (addrs m).maxunspent + sumOf (ownOf m [xp]) := by
  unfold countAddr
  rw [ownOf_singleton]
  cases xp.msig with
  | none => simp [sumOf_nil]
  | some k =>
    dsimp only
    by_cases hk : m = k
    · subst hk
      rw [Function.update_self, if_pos rfl, sumOf_singleton]
    · rw [Function.update_of_ne hk, if_neg fun heq => hk (Option.some.inj heq).symm, sumOf_nil, BitVec.add_zero]

theorem countAddr_unspent (addrs : Nat → CountedAddr) (xp : CrosschainEntry) (r m : Nat) :
    (countAddr cv addrs xp r m).unspent =
      (addrs m).unspent + if isFree (cv r) then sumOf (ownOf m [xp]) else 0#64 := by
  unfold countAddr
  rw [ownOf_singleton]
  cases xp.msig with
  | none => simp [sumOf_nil]
  | some k =>
    dsimp only
    by_cases hk : m = k
    · subst hk
      rw [Function.update_self, if_pos rfl, sumOf_singleton]
      dsimp only
      split
      · rfl
      · exact (BitVec.add_zero _).symm
    · rw [Function.update_of_ne hk, if_neg fun heq => hk (Option.some.inj heq).symm, sumOf_nil]
      split
      · exact (BitVec.add_zero _).symm
      · exact (BitVec.add_zero _).symm

theorem Looped.held (h : Looped s₀ s all free) (hfree : isFree (cv r) = false) :
    Looped s₀ { up := s.up.count cv xp r, addrs := Unspent.countAddr cv s.addrs xp r } (all ++ [xp]) free := by
  have hup : s.up.count cv xp r = { s.up with maxunspent := s.up.maxunspent + xp.value } := by
    unfold UnspentInfo.count
    rw [hfree]
    rfl
  rw [hup]
  refine ⟨?_, h.unspent, h.vps, h.maxavail_le, h.maxavail_mem, h.minavail, fun m => ?_, fun m => ?_⟩
  · rw [sumOf_append, sumOf_singleton, ← h.maxunspent]
  · rw [countAddr_maxunspent, h.addrMaxunspent, ownOf_append, sumOf_append, add_assoc]
  · rw [countAddr_unspent, h.addrUnspent, hfree, if_neg Bool.false_ne_true, BitVec.add_zero]

/-- An entry that counts, and whose output is available. -/
theorem Looped.avail (h : Looped s₀ s all free) (hfree : isFree (cv r) = true) (hparent : xp.parent = some r)
    (hpos : 0 < xp.value.toInt) :
    Looped s₀ { up := s.up.count cv xp r, addrs := Unspent.countAddr cv s.addrs xp r } (all ++ [xp])
      (free ++ [xp]) := by
  have hup : s.up.count cv xp r =
      { s.up with
        maxunspent := s.up.maxunspent + xp.value
        vps := s.up.vps ++ [r]
        unspent := s.up.unspent + xp.value
        maxvp := if s.up.maxavail.slt xp.value then some r else s.up.maxvp
        maxavail := if s.up.maxavail.slt xp.value then xp.value else s.up.maxavail
        minvp := if s.up.minavail = 0#64 ∨ xp.value.slt s.up.minavail then some r else s.up.minvp
        minavail := if s.up.minavail = 0#64 ∨ xp.value.slt s.up.minavail then xp.value else s.up.minavail } := by
    unfold UnspentInfo.count
    rw [hfree]
    rfl
  rw [hup]
  obtain ⟨hnonneg, hle⟩ := h.maxavail_le
  refine ⟨?_, ?_, ?_, ?_, ?_, ?_, fun m => ?_, fun m => ?_⟩
  · rw [sumOf_append, sumOf_singleton, ← h.maxunspent]
  · rw [sumOf_append, sumOf_singleton, ← h.unspent]
  · rw [List.filterMap_append, ← h.vps]
    simp [hparent]
  · simp only [slt_iff, List.forall_mem_append, List.forall_mem_singleton]
    split
    · next hlt => exact ⟨hpos.le, fun other hother => (hle other hother).trans hlt.le, le_refl _⟩
    · next hge => exact ⟨hnonneg, hle, not_lt.mp hge⟩
  · dsimp only
    split
    · exact .inr ⟨xp, List.mem_append_right _ List.mem_cons_self, rfl⟩
    · rcases h.maxavail_mem with hzero | ⟨other, hother, heq⟩
      · exact .inl hzero
      · exact .inr ⟨other, List.mem_append_left _ hother, heq⟩
  · rw [least_concat_eq CrosschainEntry.value free xp h.minavail]
    dsimp only
    split
    · rfl
    · exact h.minavail
  · rw [countAddr_maxunspent, h.addrMaxunspent, ownOf_append, sumOf_append, add_assoc]
  · rw [countAddr_unspent, h.addrUnspent, hfree, if_pos rfl, ownOf_append, sumOf_append, add_assoc]

end

theorem available_singleton (xp : CrosschainEntry) : available cv [some xp] =
    if 0 < xp.value.toInt ∧ xp.parent.any (fun r => isFree (cv r)) then [xp] else [] := by
  by_cases hpos : 0 < xp.value.toInt <;> by_cases hfree : xp.parent.any (fun r => isFree (cv r)) <;>
    simp [available, positive, hpos, hfree]

theorem counted_singleton (xp : CrosschainEntry) :
    counted [some xp] = if 0 < xp.value.toInt ∧ xp.parent.isSome then [xp] else [] := by
  by_cases hpos : 0 < xp.value.toInt <;> by_cases hparent : xp.parent.isSome <;>
    simp [counted, positive, hpos, hparent]

/-- **One round of the loop.** -/
theorem Looped.step {s₀ s : Funds} {all free : List CrosschainEntry} (h : Looped s₀ s all free)
    (entry : Option CrosschainEntry) :
    Looped s₀ (entryStep cv s entry) (all ++ counted [entry]) (free ++ available cv [entry]) := by
  cases entry with
  | none => simpa [counted, available, positive, entryStep] using h
  | some xp =>
    unfold entryStep
    rw [counted_singleton, available_singleton]
    dsimp only
    cases hparent : xp.parent with
    | none => simpa using h
    | some r =>
      dsimp only
      by_cases hpos : 0 < xp.value.toInt
      · rw [if_pos hpos, if_pos ⟨hpos, rfl⟩]
        cases hfree : isFree (cv r) with
        | true =>
          rw [if_pos ⟨hpos, hfree⟩]
          exact h.avail hfree hparent hpos
        | false =>
          have hheld : ¬ (0 < xp.value.toInt ∧ (some r).any fun r => isFree (cv r)) := by simp [hfree]
          rw [if_neg hheld, List.append_nil]
          exact h.held hfree
      · rw [if_neg hpos, if_neg fun hboth => hpos hboth.1, if_neg fun hboth => hpos hboth.1, List.append_nil,
          List.append_nil]
        exact h

/-- **The whole loop.** -/
theorem looped_foldl {s : Funds} (hstart : Looped s s [] []) (xps : List (Option CrosschainEntry)) :
    Looped s (xps.foldl (entryStep cv) s) (counted xps) (available cv xps) := by
  induction xps using List.reverseRecOn with
  | nil => exact hstart
  | append_singleton xps entry ih =>
    rw [List.foldl_append, counted_concat, available_concat]
    exact ih.step entry

theorem looped_reset (msigs : List Nat) (s : Funds) : Looped (resetFunds msigs s) (resetFunds msigs s) [] [] where
  maxunspent := rfl
  unspent := rfl
  vps := rfl
  maxavail_le := ⟨le_refl _, List.forall_mem_nil _⟩
  maxavail_mem := .inl rfl
  minavail := rfl
  addrMaxunspent _ := (BitVec.add_zero _).symm
  addrUnspent _ := (BitVec.add_zero _).symm

/-! ## The end -/

theorem cmpVps_le_iff (a b : Nat) : cmpVps cv a b ≤ 0 ↔ (cv b).value.toInt ≤ (cv a).value.toInt := by
  unfold cmpVps
  simp only [slt_iff]
  split
  · omega
  · split
    · omega
    · omega

theorem sortVps_pairwise (sort : Qsort Nat) (vps : List Nat) :
    (sortVps cv sort vps).Pairwise fun a b => (cv b).value.toInt ≤ (cv a).value.toInt := by
  have hsorted := sort.sorted (cmpVps cv) vps (fun a b => ?total) fun a b c => ?trans
  case total =>
    rw [cmpVps_le_iff, cmpVps_le_iff]
    exact le_total _ _
  case trans =>
    rw [cmpVps_le_iff, cmpVps_le_iff, cmpVps_le_iff]
    exact fun hab hbc => hbc.trans hab
  exact hsorted.imp fun {a b} hab => (cmpVps_le_iff a b).mp hab

theorem foldl_smallestStep (addrs : Nat → CountedAddr) (msigs : List Nat) :
    msigs.foldl (smallestStep addrs) (0#64, none) =
      (((Least.least (fun m => (addrs m).unspent.toInt) msigs).map fun m => (addrs m).unspent).getD 0#64,
        Least.least (fun m => (addrs m).unspent.toInt) msigs) := by
  induction msigs using List.reverseRecOn with
  | nil => rfl
  | append_singleton msigs m ih =>
    rw [List.foldl_append, ih, List.foldl_cons, List.foldl_nil, smallestStep,
      least_concat_eq (fun m => (addrs m).unspent) msigs m rfl]
    split
    · rfl
    · rfl

/-- What follows the loop over the entries changes the order of `vps` and the smallest address. -/
theorem updateUnspentFunds_spec (cv : Nat → CoinValue) (sort : Qsort Nat) (msigs : List Nat)
    (xps : List (Option CrosschainEntry)) (s : Funds) :
    ∃ s₁ vps text v, Looped (resetFunds msigs s) s₁ (counted xps) (available cv xps) ∧
      updateUnspentFunds cv sort msigs xps s =
        { up := { s₁.up with vps := vps, smallestMsig := text, smallestMsigunspent := v }, addrs := s₁.addrs } ∧
      vps.Perm s₁.up.vps ∧ vps.Pairwise (fun a b => (cv b).value.toInt ≤ (cv a).value.toInt) ∧
      ∀ m ∈ Least.least (fun m => (s₁.addrs m).unspent.toInt) msigs,
        text = safecopy (s₁.addrs m).multisigaddr 128 ∧ v = (s₁.addrs m).unspent := by
  have hloop : Looped (resetFunds msigs s) (xps.foldl (entryStep cv) (resetFunds msigs s)) (counted xps)
      (available cv xps) := looped_foldl (looped_reset msigs s) xps
  set s₁ := xps.foldl (entryStep cv) (resetFunds msigs s) with hs₁
  obtain ⟨text, v, hsmallest, hset⟩ : ∃ text v,
      (∀ m ∈ Least.least (fun m => (s₁.addrs m).unspent.toInt) msigs,
        text = safecopy (s₁.addrs m).multisigaddr 128 ∧ v = (s₁.addrs m).unspent) ∧
      setSmallest s₁ msigs =
        { up := { s₁.up with smallestMsig := text, smallestMsigunspent := v }, addrs := s₁.addrs } := by
    unfold setSmallest
    rw [foldl_smallestStep]
    cases hleast : Least.least (fun m => (s₁.addrs m).unspent.toInt) msigs with
    | none => exact ⟨s₁.up.smallestMsig, s₁.up.smallestMsigunspent, (fun _ h => nomatch h), rfl⟩
    | some m => exact ⟨_, _, (fun k hk => Option.some.inj hk ▸ ⟨rfl, rfl⟩), rfl⟩
  unfold updateUnspentFunds
  dsimp only
  rw [← hs₁, hset]
  by_cases hmany : 1 < s₁.up.vps.length
  · refine ⟨s₁, sortVps cv sort s₁.up.vps, text, v, hloop, ?_, sort.perm _ _, sortVps_pairwise sort _, hsmallest⟩
    rw [if_pos hmany]
  · refine ⟨s₁, s₁.up.vps, text, v, hloop, ?_, List.Perm.refl _, ?_, hsmallest⟩
    · rw [if_neg hmany]
    · match s₁.up.vps, hmany with
      | [], _ => exact List.Pairwise.nil
      | [r], _ => exact List.pairwise_singleton _ r
      | _ :: _ :: _, hshort => exact absurd (Nat.le_add_left 2 _) hshort

/-! ## The totals -/

section
variable (cv)

/-- What the function writes for the entries, for the coin and for each of its multisig addresses. -/
structure Exact (msigs : List Nat) (xps : List (Option CrosschainEntry)) (s : Funds) : Prop where
  perm : s.up.vps.Perm ((available cv xps).filterMap CrosschainEntry.parent)
  sorted : s.up.vps.Pairwise fun a b => (cv b).value.toInt ≤ (cv a).value.toInt
  unspent : s.up.unspent.toInt = (s.up.vps.map fun r => (cv r).value.toInt).sum
  maxunspent : s.up.maxunspent.toInt = total (positive xps)
  maxavail : (s.up.vps = [] ∧ s.up.maxavail = 0#64) ∨
    IsGreatest {v | ∃ r ∈ s.up.vps, (cv r).value.toInt = v} s.up.maxavail.toInt
  minavail : (s.up.vps = [] ∧ s.up.minavail = 0#64) ∨
    IsLeast {v | ∃ r ∈ s.up.vps, (cv r).value.toInt = v} s.up.minavail.toInt
  addrUnspent : ∀ m ∈ msigs, (s.addrs m).unspent.toInt = total (ownOf m (available cv xps))
  addrMaxunspent : ∀ m ∈ msigs, (s.addrs m).maxunspent.toInt = total (ownOf m (positive xps))

/-- Each entry has an output of its value. -/
def Consistent (xps : List (Option CrosschainEntry)) : Prop :=
  ∀ xp, some xp ∈ xps → ∃ r, xp.parent = some r ∧ (cv r).value = xp.value

end

section
variable {xps : List (Option CrosschainEntry)} {ys : List CrosschainEntry} {xp : CrosschainEntry}

theorem mem_positive : xp ∈ positive xps ↔ some xp ∈ xps ∧ 0 < xp.value.toInt := by
  simp [positive]

theorem available_sublist : (available cv xps).Sublist (positive xps) := List.filter_sublist

theorem toInt_sumOf (hsum : total (positive xps) < 2 ^ 63) (hys : ys.Sublist (positive xps)) :
    (sumOf ys).toInt = total ys := by
  have hpos : ∀ v ∈ (positive xps).map (fun xp => xp.value.toInt), 0 ≤ v := by
    intro v hv
    obtain ⟨xp, hxp, rfl⟩ := List.mem_map.mp hv
    exact (mem_positive.mp hxp).2.le
  have hle : total ys ≤ total (positive xps) := (hys.map _).sum_le_sum hpos
  have hmap : total ys = ((ys.map CrosschainEntry.value).map BitVec.toInt).sum := by
    rw [List.map_map]
    rfl
  rw [hmap] at hle ⊢
  refine Tally.toInt_sum_of_lt (fun v hv => ?_) (by omega)
  obtain ⟨xp, hxp, rfl⟩ := List.mem_map.mp hv
  exact (mem_positive.mp (hys.subset hxp)).2.le

theorem Consistent.counted_eq (h : Consistent cv xps) : counted xps = positive xps := by
  refine List.filter_eq_self.mpr fun xp hxp => ?_
  obtain ⟨r, hparent, _⟩ := h xp (mem_positive.mp hxp).1
  rw [hparent]
  rfl

theorem Consistent.map_value (h : Consistent cv xps) (hys : ys.Sublist (positive xps)) :
    (ys.filterMap CrosschainEntry.parent).map (fun r => (cv r).value.toInt) = ys.map fun xp => xp.value.toInt := by
  induction ys with
  | nil => rfl
  | cons xp ys ih =>
    obtain ⟨r, hparent, hvalue⟩ := h xp (mem_positive.mp (hys.subset List.mem_cons_self)).1
    rw [List.filterMap_cons_some hparent, List.map_cons, List.map_cons, hvalue,
      ih ((List.sublist_cons_self xp ys).trans hys)]

theorem Consistent.values_eq (h : Consistent cv xps) {vps : List Nat}
    (hvps : vps.Perm ((available cv xps).filterMap CrosschainEntry.parent)) :
    {v | ∃ r ∈ vps, (cv r).value.toInt = v} = {v | ∃ xp ∈ available cv xps, xp.value.toInt = v} := by
  ext v
  have hmap := (hvps.map fun r => (cv r).value.toInt).mem_iff (a := v)
  rw [h.map_value available_sublist, List.mem_map, List.mem_map] at hmap
  exact hmap

theorem Consistent.parents_eq_nil (h : Consistent cv xps) :
    (available cv xps).filterMap CrosschainEntry.parent = [] ↔ available cv xps = [] := by
  rw [← List.map_eq_nil_iff (f := fun r => (cv r).value.toInt), h.map_value available_sublist, List.map_eq_nil_iff]

end

section
variable {s₀ s : Funds} {xps : List (Option CrosschainEntry)} {all : List CrosschainEntry}

theorem available_pos {xp : CrosschainEntry} (h : xp ∈ available cv xps) : 0 < xp.value.toInt :=
  (mem_positive.mp (available_sublist.subset h)).2

theorem Looped.isGreatest (h : Looped s₀ s all (available cv xps)) (hne : available cv xps ≠ []) :
    IsGreatest {v | ∃ xp ∈ available cv xps, xp.value.toInt = v} s.up.maxavail.toInt := by
  obtain ⟨first, hfirst⟩ := List.exists_mem_of_ne_nil _ hne
  have hpos : 0 < s.up.maxavail.toInt := (available_pos hfirst).trans_le (h.maxavail_le.2 first hfirst)
  constructor
  · rcases h.maxavail_mem with hzero | ⟨xp, hxp, hvalue⟩
    · exact absurd (toInt_eq_zero.mpr hzero) (ne_of_gt hpos)
    · exact ⟨xp, hxp, congrArg BitVec.toInt hvalue⟩
  · rintro v ⟨xp, hxp, rfl⟩
    exact h.maxavail_le.2 xp hxp

theorem Looped.isLeast (h : Looped s₀ s all (available cv xps)) (hne : available cv xps ≠ []) :
    IsLeast {v | ∃ xp ∈ available cv xps, xp.value.toInt = v} s.up.minavail.toInt := by
  obtain ⟨xp, hxp⟩ := Least.least_isSome (f := fun xp : CrosschainEntry => xp.value.toInt) hne
  have hvalue : s.up.minavail = xp.value := by
    rw [h.minavail, hxp]
    rfl
  rw [hvalue]
  refine ⟨⟨xp, Least.least_mem hxp, rfl⟩, ?_⟩
  rintro v ⟨other, hother, rfl⟩
  exact Least.least_le_of_pos (fun _ hmem => available_pos hmem) hxp other hother

end

/-- **The totals are exact.** -/
theorem updateUnspentFunds_exact (sort : Qsort Nat) (msigs : List Nat) (xps : List (Option CrosschainEntry)) (s : Funds)
    (hconsistent : Consistent cv xps) (hsum : total (positive xps) < 2 ^ 63) :
    Exact cv msigs xps (updateUnspentFunds cv sort msigs xps s) := by
  obtain ⟨s₁, vps, text, v, hloop, heq, hperm, hsorted, -⟩ := updateUnspentFunds_spec cv sort msigs xps s
  have hvps : vps.Perm ((available cv xps).filterMap CrosschainEntry.parent) := hloop.vps ▸ hperm
  have hnil : vps = [] ↔ available cv xps = [] := by
    rw [← hconsistent.parents_eq_nil]
    exact ⟨fun h => List.nil_perm.mp (h ▸ hvps), fun h => List.perm_nil.mp (h ▸ hvps)⟩
  rw [heq]
  refine ⟨hvps, hsorted, ?_, ?_, ?_, ?_, fun m hm => ?_, fun m hm => ?_⟩
  · rw [(hvps.map _).sum_eq, hconsistent.map_value available_sublist, hloop.unspent]
    exact toInt_sumOf hsum available_sublist
  · rw [hloop.maxunspent, hconsistent.counted_eq]
    exact toInt_sumOf hsum (List.Sublist.refl _)
  · dsimp only
    rw [hconsistent.values_eq hvps]
    by_cases hempty : available cv xps = []
    · refine .inl ⟨hnil.mpr hempty, ?_⟩
      rcases hloop.maxavail_mem with hzero | ⟨xp, hxp, -⟩
      · exact hzero
      · rw [hempty] at hxp
        cases hxp
    · exact .inr (hloop.isGreatest hempty)
  · dsimp only
    rw [hconsistent.values_eq hvps]
    by_cases hempty : available cv xps = []
    · refine .inl ⟨hnil.mpr hempty, ?_⟩
      rw [hloop.minavail, hempty]
      rfl
    · exact .inr (hloop.isLeast hempty)
  · dsimp only
    rw [hloop.addrUnspent, resetFunds]
    dsimp only
    rw [if_pos hm, BitVec.zero_add]
    exact toInt_sumOf hsum (List.filter_sublist.trans available_sublist)
  · dsimp only
    rw [hloop.addrMaxunspent, resetFunds, hconsistent.counted_eq]
    dsimp only
    rw [if_pos hm, BitVec.zero_add]
    exact toInt_sumOf hsum List.filter_sublist

theorem updateUnspentFunds_exact_two :
    Exact (fun _ => { value := 5#64 }) [0]
      [some { value := 5#64, msig := some 0, parent := some 1 }, none, some { value := 5#64, parent := some 2 }]
      (updateUnspentFunds (fun _ => { value := 5#64 }) mergeQsort [0]
        [some { value := 5#64, msig := some 0, parent := some 1 }, none, some { value := 5#64, parent := some 2 }]
        { up := {}, addrs := fun _ => { nxtAddr := [], m := 2, n := 3, coinid := 1, fits := by decide } }) := by
  refine updateUnspentFunds_exact mergeQsort _ _ _ ?_ (by decide)
  intro xp hxp
  simp only [List.mem_cons, Option.some.injEq, reduceCtorEq, List.not_mem_nil, or_false, false_or] at hxp
  rcases hxp with rfl | rfl
  · exact ⟨1, rfl, rfl⟩
  · exact ⟨2, rfl, rfl⟩

/-! ## The smallest multisig address -/

section
variable (cv)

/-- The address that is kept has the least `unspent` of all. -/
def Smallest (msigs : List Nat) (s : Funds) : Prop :=
  ∃ m ∈ msigs, s.up.smallestMsig = (s.addrs m).multisigaddr ∧ s.up.smallestMsigunspent = (s.addrs m).unspent ∧
    ∀ k ∈ msigs, (s.addrs m).unspent.toInt ≤ (s.addrs k).unspent.toInt

/-- What the available entries of an address add up to. -/
def unspentOf (xps : List (Option CrosschainEntry)) (m : Nat) : BitVec 64 := sumOf (ownOf m (available cv xps))

end

theorem safecopy_multisigaddr (addr : CountedAddr) : safecopy addr.multisigaddr 128 = addr.multisigaddr :=
  List.take_of_length_le (addr.fits.le.trans (by decide))

/-- **The address that is kept is the smallest if and only if** no address has nothing unspent, or the last one has
nothing; a sum that overflows aside. -/
theorem smallest_iff (sort : Qsort Nat) (msigs : List Nat) (last : Nat) (xps : List (Option CrosschainEntry))
    (s : Funds) :
    Smallest (msigs ++ [last]) (updateUnspentFunds cv sort (msigs ++ [last]) xps s) ↔
      (∀ m ∈ msigs ++ [last], unspentOf cv xps m ≠ 0#64) ∨
        (∃ m ∈ msigs ++ [last], (unspentOf cv xps m).toInt < 0) ∨ unspentOf cv xps last = 0#64 := by
  obtain ⟨s₁, vps, text, v, hloop, heq, -, -, hsmallest⟩ :=
    updateUnspentFunds_spec cv sort (msigs ++ [last]) xps s
  have hunspent : ∀ m ∈ msigs ++ [last], (s₁.addrs m).unspent = unspentOf cv xps m := by
    intro m hm
    rw [hloop.addrUnspent, resetFunds]
    dsimp only
    rw [if_pos hm, BitVec.zero_add]
    rfl
  have hlast : last ∈ msigs ++ [last] := List.mem_append_right _ List.mem_cons_self
  obtain ⟨a, ha⟩ := Least.least_isSome (f := fun m => (s₁.addrs m).unspent.toInt) (List.ne_nil_of_mem hlast)
  obtain ⟨rfl, rfl⟩ := hsmallest a ha
  have hkept : Smallest (msigs ++ [last]) (updateUnspentFunds cv sort (msigs ++ [last]) xps s) ↔
      ∀ k ∈ msigs ++ [last], (s₁.addrs a).unspent.toInt ≤ (s₁.addrs k).unspent.toInt := by
    rw [heq]
    constructor
    · rintro ⟨m, hm, -, hsame, hle⟩ k hk
      have hsame : (s₁.addrs a).unspent = (s₁.addrs m).unspent := hsame
      rw [hsame]
      exact hle k hk
    · exact fun hle => ⟨a, Least.least_mem ha, safecopy_multisigaddr _, rfl, hle⟩
  rw [hkept, Least.least_le_iff ha, toInt_eq_zero, hunspent last hlast]
  refine or_congr (forall₂_congr fun m hm => ?_) (or_congr_left (exists_congr fun m => and_congr_right fun hm => ?_))
  · rw [hunspent m hm, ne_eq, toInt_eq_zero]
  · rw [hunspent m hm]

/-- Of two addresses the first has nothing unspent, and the second is kept. -/
theorem not_forall_smallest :
    ¬ ∀ (cv : Nat → CoinValue) (sort : Qsort Nat) (msigs : List Nat) (xps : List (Option CrosschainEntry)) (s : Funds),
      msigs ≠ [] → Smallest msigs (updateUnspentFunds cv sort msigs xps s) := by
  intro h
  obtain ⟨m, -, -, hsame, hle⟩ := h (fun _ => { value := 5#64 }) mergeQsort [0, 1]
    [some { value := 5#64, msig := some 1, parent := some 0 }]
    { up := {}, addrs := fun _ => { nxtAddr := [], m := 2, n := 3, coinid := 1, fits := by decide } } (by decide)
  have hzero := hle 0 (by decide)
  rw [← hsame] at hzero
  exact absurd hzero (by decide)

end

end NXTServices.Gateway.Unspent
