import Mathlib.Algebra.BigOperators.Group.Finset.Piecewise
import Mathlib.Algebra.BigOperators.Group.List.Basic
import Mathlib.Algebra.BigOperators.Group.List.Lemmas
import Mathlib.Data.BitVec

/-!
# Tallies of a list

* `tally` : the sum of the amounts whose item has a key;
* `sum_tally` : the tallies of all keys come to the sum of the amounts;
* `firsts`, `repeats` : the items that are the first with their name, and the others;
* `tally_firsts_add_repeats` : **each item is a first or a repeat**;
* `firsts_perm` : the firsts of a list are the items that it is made of, each once;
* `tally_le_of_matched` : **items matched by others** come to no more than these;
* `toNat_sum_of_lt` : machine words whose sum fits are summed exactly.
-/

namespace Tally
variable {α ι κ M : Type*}

section Tally
variable [DecidableEq κ] [AddCommMonoid M] {key : α → κ} {amount : α → M} {xs ys : List α}

/-- The sum of the amounts of the items with the key. -/
def tally (key : α → κ) (amount : α → M) (xs : List α) (k : κ) : M :=
  ((xs.filter fun x => key x = k).map amount).sum

@[simp] theorem tally_nil (k : κ) : tally key amount [] k = 0 := rfl

theorem tally_cons (x : α) (k : κ) :
    tally key amount (x :: xs) k = (if key x = k then amount x else 0) + tally key amount xs k := by
  unfold tally
  by_cases h : key x = k <;> simp [h]

theorem tally_perm (h : xs.Perm ys) (k : κ) : tally key amount xs k = tally key amount ys k :=
  ((h.filter _).map amount).sum_eq

/-- The tallies of all the keys come to the sum. -/
theorem sum_tally {keys : Finset κ} (h : ∀ x ∈ xs, key x ∈ keys) :
    ∑ k ∈ keys, tally key amount xs k = (xs.map amount).sum := by
  induction xs with
  | nil => simp
  | cons x xs ih =>
    obtain ⟨hx, hxs⟩ := List.forall_mem_cons.mp h
    simp_rw [tally_cons]
    rw [Finset.sum_add_distrib, Finset.sum_ite_eq, if_pos hx, ih hxs, List.map_cons, List.sum_cons]

/-! ## Firsts and repeats -/

variable [DecidableEq ι] {name : α → ι} {seen : List ι}

/-- The items whose name has not been seen. -/
def firsts (name : α → ι) : List ι → List α → List α
  | _, [] => []
  | seen, x :: xs =>
    if name x ∈ seen then firsts name (name x :: seen) xs else x :: firsts name (name x :: seen) xs

/-- The items whose name has been seen. -/
def repeats (name : α → ι) : List ι → List α → List α
  | _, [] => []
  | seen, x :: xs =>
    if name x ∈ seen then x :: repeats name (name x :: seen) xs else repeats name (name x :: seen) xs

theorem tally_firsts_add_repeats (k : κ) :
    tally key amount (firsts name seen xs) k + tally key amount (repeats name seen xs) k = tally key amount xs k := by
  induction xs generalizing seen with
  | nil => simp [firsts, repeats]
  | cons x xs ih =>
    have hrest := @ih (name x :: seen)
    rw [firsts, repeats, tally_cons x, ← hrest]
    split
    · rw [tally_cons, add_left_comm]
    · rw [tally_cons, add_assoc]

theorem mem_of_mem_firsts {x : α} (h : x ∈ firsts name seen xs) : x ∈ xs ∧ name x ∉ seen := by
  induction xs generalizing seen with
  | nil => cases h
  | cons y xs ih =>
    rw [firsts] at h
    split at h
    · obtain ⟨hmem, hseen⟩ := ih h
      exact ⟨List.mem_cons_of_mem y hmem, fun hx => hseen (List.mem_cons_of_mem _ hx)⟩
    · next hy =>
      rcases List.mem_cons.mp h with rfl | h
      · exact ⟨List.mem_cons_self, hy⟩
      · obtain ⟨hmem, hseen⟩ := ih h
        exact ⟨List.mem_cons_of_mem y hmem, fun hx => hseen (List.mem_cons_of_mem _ hx)⟩

theorem nodup_firsts : ((firsts name seen xs).map name).Nodup := by
  induction xs generalizing seen with
  | nil => exact List.nodup_nil
  | cons x xs ih =>
    rw [firsts]
    split
    · exact ih
    · refine List.nodup_cons.mpr ⟨fun hmem => ?_, ih⟩
      obtain ⟨y, hy, hname⟩ := List.mem_map.mp hmem
      exact (mem_of_mem_firsts hy).2 (hname ▸ List.mem_cons_self)

/-- No name is missed. -/
theorem exists_mem_firsts {x : α} (hx : x ∈ xs) (hseen : name x ∉ seen) :
    ∃ y ∈ firsts name seen xs, name y = name x := by
  induction xs generalizing seen with
  | nil => cases hx
  | cons z xs ih =>
    rw [firsts]
    by_cases hz : name z = name x
    · rw [if_neg (hz ▸ hseen)]
      exact ⟨z, List.mem_cons_self, hz⟩
    · have hmem : x ∈ xs := (List.mem_cons.mp hx).resolve_left fun h => hz (h ▸ rfl)
      have hfresh : name x ∉ name z :: seen := fun h => (List.mem_cons.mp h).elim (fun h => hz h.symm) hseen
      obtain ⟨y, hy, hname⟩ := ih hmem hfresh
      refine ⟨y, ?_, hname⟩
      split
      · exact hy
      · exact List.mem_cons_of_mem z hy

/-- **The firsts of a list are the items that it is made of**, however often and in which order they stand. -/
theorem firsts_perm (hnodup : (ys.map name).Nodup) (hmem : ∀ x, x ∈ xs ↔ x ∈ ys) : (firsts name [] xs).Perm ys := by
  apply (List.perm_ext_iff_of_nodup nodup_firsts.of_map hnodup.of_map).mpr
  intro x
  constructor
  · intro hx
    exact (hmem x).mp (mem_of_mem_firsts hx).1
  · intro hx
    have hfirst : ∃ y ∈ firsts name [] xs, name y = name x := exists_mem_firsts ((hmem x).mpr hx) List.not_mem_nil
    obtain ⟨y, hy, hname⟩ := hfirst
    have hsame : y = x := List.inj_on_of_nodup_map hnodup ((hmem y).mp (mem_of_mem_firsts hy).1) hx hname
    exact hsame ▸ hy

end Tally

theorem tally_le_sum [DecidableEq κ] {key : α → κ} {amount : α → ℕ} (xs : List α) (k : κ) :
    tally key amount xs k ≤ (xs.map amount).sum := by
  induction xs with
  | nil => simp
  | cons x xs ih =>
    rw [tally_cons, List.map_cons, List.sum_cons]
    split <;> omega

/-! ## Matched items -/

section Matched
variable {β : Type*} [DecidableEq κ] {key : α → κ} {amount : α → ℕ} {key' : β → κ} {amount' : β → ℕ} {name : α → ι}
  {place : β → ι}

/-- **Items that are matched by others of their place** come to no more than these. -/
theorem tally_le_of_matched {xs : List α} {ys : List β} (hnodup : (xs.map name).Nodup)
    (h : ∀ x ∈ xs, ∃ y ∈ ys, place y = name x ∧ key' y = key x ∧ amount x ≤ amount' y) (k : κ) :
    tally key amount xs k ≤ tally key' amount' ys k := by
  induction xs generalizing ys with
  | nil => simp
  | cons x xs ih =>
    obtain ⟨hfresh, hnodup⟩ := List.nodup_cons.mp hnodup
    obtain ⟨hx, hrest⟩ := List.forall_mem_cons.mp h
    obtain ⟨y, hy, hplace, hkey, hle⟩ := hx
    obtain ⟨before, after, rfl⟩ := List.append_of_mem hy
    have hless : tally key amount xs k ≤ tally key' amount' (before ++ after) k := by
      apply ih hnodup
      intro x' hx'
      obtain ⟨y', hy', hplace', hmatch⟩ := hrest x' hx'
      refine ⟨y', ?_, hplace', hmatch⟩
      rcases List.mem_append.mp hy' with hmem | hmem
      · exact List.mem_append_left _ hmem
      · rcases List.mem_cons.mp hmem with rfl | hmem
        · refine absurd ?_ hfresh
          rw [← hplace, hplace']
          exact List.mem_map.mpr ⟨x', hx', rfl⟩
        · exact List.mem_append_right _ hmem
    rw [tally_perm List.perm_middle, tally_cons, tally_cons, hkey]
    split
    · omega
    · omega

end Matched

/-! ## Sums of machine words -/

section Words
variable {w : Nat} [DecidableEq κ] {key : α → κ} {amount : α → BitVec w} {xs : List α}

theorem toNat_sum_of_lt {xs : List (BitVec w)} (h : (xs.map BitVec.toNat).sum < 2 ^ w) :
    xs.sum.toNat = (xs.map BitVec.toNat).sum := by
  induction xs with
  | nil => simp
  | cons x xs ih =>
    rw [List.map_cons, List.sum_cons] at h
    rw [List.sum_cons, List.map_cons, List.sum_cons, BitVec.toNat_add, ih (by omega), Nat.mod_eq_of_lt h]

theorem toNat_tally_of_lt {k : κ} (h : tally key (fun x => (amount x).toNat) xs k < 2 ^ w) :
    (tally key amount xs k).toNat = tally key (fun x => (amount x).toNat) xs k := by
  unfold tally at h ⊢
  rw [← Function.comp_def BitVec.toNat amount, ← List.map_map] at h ⊢
  exact toNat_sum_of_lt h

theorem toInt_eq_toNat {x : BitVec w} (h : 0 ≤ x.toInt) : x.toInt = x.toNat := by
  have := x.isLt
  rw [BitVec.toInt_eq_toNat_cond] at h ⊢
  split
  · rfl
  · next hlarge =>
    rw [if_neg hlarge] at h
    omega

theorem toInt_sum_of_lt {xs : List (BitVec w)} (hnonneg : ∀ x ∈ xs, 0 ≤ x.toInt)
    (h : 2 * (xs.map BitVec.toInt).sum < 2 ^ w) : xs.sum.toInt = (xs.map BitVec.toInt).sum := by
  have hmap : xs.map BitVec.toInt = (xs.map BitVec.toNat).map Nat.cast := by
    rw [List.map_map]
    exact List.map_congr_left fun x hx => toInt_eq_toNat (hnonneg x hx)
  have hcast : ((xs.map BitVec.toNat).sum : ℤ) = ((xs.map BitVec.toNat).map Nat.cast).sum :=
    map_list_sum (Nat.castAddMonoidHom ℤ) _
  rw [hmap, ← hcast] at h ⊢
  have hlt : 2 * (xs.map BitVec.toNat).sum < 2 ^ w := by exact_mod_cast h
  have hsum : xs.sum.toNat = (xs.map BitVec.toNat).sum := toNat_sum_of_lt (by omega)
  rw [← hsum] at hlt ⊢
  exact BitVec.toInt_eq_toNat_of_lt hlt

theorem tally_toInt (h : ∀ x ∈ xs, 0 ≤ (amount x).toInt) (k : κ) :
    tally key (fun x => (amount x).toInt) xs k = (tally key (fun x => (amount x).toNat) xs k : ℕ) := by
  induction xs with
  | nil => rfl
  | cons x xs ih =>
    obtain ⟨hx, hxs⟩ := List.forall_mem_cons.mp h
    rw [tally_cons, tally_cons, ih hxs, toInt_eq_toNat hx]
    split
    · exact (Nat.cast_add ..).symm
    · simp

end Words
end Tally
