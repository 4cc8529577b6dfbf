import NXTServices.Gateway.Charges
import NXTServices.Lib.Tally

/-!
# The totals of a coin and of its accounts

An owner of a total is the coin, `none`, or the account with a key.

* `totalOf` : the total of an owner;
* `postedTo`, `Posted.totalOf` : what a list of updates adds to it;
* `amountTo`, `postedTo_postings` : what a list of deposits adds to it.
-/

namespace NXTServices.Gateway

/-- The totals of the coin, or of the account with the key. -/
def totalOf (s : Replica) (type : BalanceType) : Option Text → BitVec 64
  | none => s.funds.total type
  | some key => (s.accts key).funds.total type

/-- What the updates add to the total of an owner. -/
def postedTo (c : Coin) (type : BalanceType) (ps : List Posting) : Option Text → BitVec 64
  | none => postedTotal type ps
  | some key => if c.legal then postedTotal type (ps.filter fun p => p.key = key) else 0#64

/-- The amounts of the deposits that are the owner's. -/
def amountTo (c : Coin) (due : List (MultisigAddr × BitVec 64)) : Option Text → BitVec 64
  | none => amountOf due
  | some key => if c.legal then amountOf (due.filter fun d => acctKey d.1.nxtAddr = key) else 0#64

section
variable {c : Coin} {s s' : Replica} {type : BalanceType} {ps ps' : List Posting} {owner : Option Text}

/-- **The totals after some updates.** -/
theorem Posted.totalOf (h : Posted c ps s s') :
    totalOf s' type owner = totalOf s type owner + postedTo c type ps owner := by
  cases owner with
  | none =>
    show s'.funds.total type = _
    rw [h.funds, BalanceInfo.total_post]
    rfl
  | some key =>
    show (s'.accts key).funds.total type = (s.accts key).funds.total type + if _ then _ else _
    rw [h.accts]
    split
    · rw [BalanceInfo.total_post]
    · simp

theorem postedTo_singleton (hlegal : c.legal) (p : Posting) (key : Text) :
    postedTo c type [p] (some key) = if p.key = key ∧ p.type = type then p.value else 0#64 := by
  unfold postedTo
  by_cases hkey : p.key = key <;> by_cases htype : p.type = type <;> simp [hlegal, hkey, htype, postedTotal]

theorem postedTo_nil : postedTo c type [] owner = 0#64 := by
  cases owner <;> simp [postedTo, postedTotal]

theorem postedTo_eq_zero (h : ∀ p ∈ ps, p.type ≠ type) : postedTo c type ps owner = 0#64 := by
  have hnone {qs : List Posting} (hsub : ∀ p ∈ qs, p ∈ ps) : postedTotal type qs = 0#64 := by
    unfold postedTotal
    rw [List.filter_eq_nil_iff.mpr fun p hp => by simpa using h p (hsub p hp)]
    rfl
  cases owner with
  | none => exact hnone fun _ hp => hp
  | some key =>
    show (if _ then _ else _) = _
    split
    · exact hnone fun _ hp => (List.mem_filter.mp hp).1
    · rfl

theorem postedTo_postings (mark : BitVec 64) (due : List (MultisigAddr × BitVec 64)) :
    postedTo c .deposit (postings mark due) owner = amountTo c due owner := by
  cases owner with
  | none => simpa [postedTo, amountTo] using (postedTotal_postings mark due fun _ => True).1
  | some key =>
    have := (postedTotal_postings mark due fun q => q = key).1
    by_cases hlegal : c.legal <;> simp [postedTo, amountTo, hlegal, this]

theorem amountTo_some (due : List (MultisigAddr × BitVec 64)) (key : Text) :
    amountTo c due (some key) =
      if c.legal then amountOf (due.filter fun d => acctKey d.1.nxtAddr = key) else 0#64 := rfl

theorem amountTo_nil : amountTo c [] owner = 0#64 := by
  cases owner <;> simp [amountTo, amountOf]

theorem amountTo_append (due due' : List (MultisigAddr × BitVec 64)) :
    amountTo c (due ++ due') owner = amountTo c due owner + amountTo c due' owner := by
  cases owner with
  | none => simp [amountTo, amountOf]
  | some key => by_cases hlegal : c.legal <;> simp [amountTo, hlegal, amountOf]

theorem amountTo_perm {due due' : List (MultisigAddr × BitVec 64)} (h : due.Perm due') :
    amountTo c due owner = amountTo c due' owner := by
  cases owner with
  | none => exact (h.map Prod.snd).sum_eq
  | some key =>
    rw [amountTo_some, amountTo_some]
    split
    · exact ((h.filter _).map Prod.snd).sum_eq
    · rfl

/-- Amounts whose sum fits do not cancel. -/
theorem amountTo_eq_zero_iff {due : List (MultisigAddr × BitVec 64)}
    (h : (due.map fun d => d.2.toNat).sum < 2 ^ 64) :
    (∀ owner, amountTo c due owner = 0#64) ↔ ∀ d ∈ due, d.2 = 0#64 := by
  constructor
  · intro hzero d hd
    have hsum : (due.map Prod.snd).sum.toNat = 0 := by
      rw [show (due.map Prod.snd).sum = 0#64 from hzero none]
      rfl
    rw [Tally.toNat_sum_of_lt (by rwa [List.map_map]), List.map_map, List.sum_eq_zero_iff] at hsum
    apply BitVec.eq_of_toNat_eq
    exact hsum _ (List.mem_map.mpr ⟨d, hd, rfl⟩)
  · intro hzero owner
    have hall {due' : List (MultisigAddr × BitVec 64)} (hsub : ∀ d ∈ due', d ∈ due) : amountOf due' = 0#64 := by
      apply List.sum_eq_zero
      intro x hx
      obtain ⟨d, hd, rfl⟩ := List.mem_map.mp hx
      exact hzero d (hsub d hd)
    cases owner with
    | none => exact hall fun _ hd => hd
    | some key =>
      rw [amountTo_some]
      split
      · exact hall fun _ hd => (List.mem_filter.mp hd).1
      · rfl

end
end NXTServices.Gateway
