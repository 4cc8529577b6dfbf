import Mathlib.Data.List.Count
import Mathlib.Tactic.Common

/-!
# Reference counts

* `Exact` : each live object counts its references, above a number of its own, and no reference dangles;
* `Exact.create`, `exact_insert_none`, `Exact.acquire`, `Exact.release`, `Exact.free` : what keeps it.
-/

namespace Refcount
variable {ι : Type*} [DecidableEq ι] {alive alive' : ι → Prop} {count count' base base' : ι → Int} {a : ι}
  {refs l₁ l₂ : List (Option ι)}

/-- `base a` is what object `a` counts besides the references in `refs`. -/
structure Exact (alive : ι → Prop) (count base : ι → Int) (refs : List (Option ι)) : Prop where
  count_eq : ∀ a, alive a → count a = refs.count (some a) + base a
  alive_of_mem : ∀ a, some a ∈ refs → alive a

/-- A new object, which nothing refers to. -/
theorem Exact.create (h : Exact alive count base refs) (ha : ¬alive a) (halive : ∀ b, alive' b ↔ b = a ∨ alive b)
    (hcount : count' a = base' a) (hothers : ∀ b, b ≠ a → count' b = count b ∧ base' b = base b) :
    Exact alive' count' base' refs where
  count_eq b hb := by
    by_cases hba : b = a
    · subst hba
      have hzero : refs.count (some b) = 0 := List.count_eq_zero.mpr fun hmem => ha (h.alive_of_mem b hmem)
      rw [hcount, hzero]
      simp
    · rw [(hothers b hba).1, (hothers b hba).2]
      exact h.count_eq b (((halive b).mp hb).resolve_left hba)
  alive_of_mem b hb := (halive b).mpr (.inr (h.alive_of_mem b hb))

theorem count_insert (l₁ l₂ : List (Option ι)) (r : Option ι) (b : ι) :
    (l₁ ++ r :: l₂).count (some b) = (l₁ ++ l₂).count (some b) + if r = some b then 1 else 0 := by
  rw [List.count_append, List.count_cons, List.count_append, beq_eq_decide, Nat.add_assoc]
  simp only [decide_eq_true_eq]

omit [DecidableEq ι] in
theorem mem_insert {r : Option ι} {b : ι} : some b ∈ l₁ ++ r :: l₂ ↔ r = some b ∨ some b ∈ l₁ ++ l₂ := by
  rw [List.mem_append, List.mem_cons, List.mem_append, or_left_comm, eq_comm]

theorem exact_insert_none : Exact alive count base (l₁ ++ none :: l₂) ↔ Exact alive count base (l₁ ++ l₂) := by
  have hcount (b : ι) : (l₁ ++ none :: l₂).count (some b) = (l₁ ++ l₂).count (some b) := count_insert l₁ l₂ none b
  have hmem (b : ι) : some b ∈ l₁ ++ none :: l₂ ↔ some b ∈ l₁ ++ l₂ := by simp
  constructor
  · exact fun h => ⟨fun b hb => hcount b ▸ h.count_eq b hb, fun b hb => h.alive_of_mem b ((hmem b).mpr hb)⟩
  · exact fun h => ⟨fun b hb => hcount b ▸ h.count_eq b hb, fun b hb => h.alive_of_mem b ((hmem b).mp hb)⟩

/-- A reference is counted when it comes. -/
theorem Exact.acquire (h : Exact alive count base (l₁ ++ l₂)) (ha : alive a) (hcount : count' a = count a + 1)
    (hothers : ∀ b, b ≠ a → count' b = count b) : Exact alive count' base (l₁ ++ some a :: l₂) where
  count_eq b hb := by
    have heq := h.count_eq b hb
    rw [count_insert]
    by_cases hba : b = a
    · subst hba
      rw [if_pos rfl, hcount]
      omega
    · rw [if_neg fun h => hba (Option.some.inj h).symm, hothers b hba]
      exact heq
  alive_of_mem b hb := by
    rcases mem_insert.mp hb with heq | hb
    · obtain rfl := Option.some.inj heq
      exact ha
    · exact h.alive_of_mem b hb

/-- It is taken off when it goes. -/
theorem Exact.release (h : Exact alive count base (l₁ ++ some a :: l₂)) (hcount : count' a = count a - 1)
    (hothers : ∀ b, b ≠ a → count' b = count b) : Exact alive count' base (l₁ ++ l₂) where
  count_eq b hb := by
    have heq := h.count_eq b hb
    rw [count_insert] at heq
    by_cases hba : b = a
    · subst hba
      rw [if_pos rfl] at heq
      rw [hcount]
      omega
    · rw [if_neg fun h => hba (Option.some.inj h).symm] at heq
      rw [hothers b hba]
      exact heq
  alive_of_mem b hb := h.alive_of_mem b (mem_insert.mpr (.inr hb))

/-- An object that counts nothing can be freed. -/
theorem Exact.free (h : Exact alive count base refs) (ha : alive a) (hzero : count a = 0) (hbase : 0 ≤ base a)
    (halive : ∀ b, alive' b ↔ b ≠ a ∧ alive b) : Exact alive' count base refs where
  count_eq b hb := h.count_eq b ((halive b).mp hb).2
  alive_of_mem b hb := by
    refine (halive b).mpr ⟨?_, h.alive_of_mem b hb⟩
    rintro rfl
    have hpos : 0 < refs.count (some b) := List.count_pos_iff.mpr hb
    have heq := h.count_eq b ha
    omega

end Refcount
