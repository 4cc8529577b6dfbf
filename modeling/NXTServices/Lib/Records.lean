import Mathlib.Data.List.Basic
import Mathlib.Order.Lattice

/-!
# Running maxima of a list

* `records` : the elements whose value is above a bound and above that of each element before them;
* `records_pairwise` : they go up;
* `le_of_records_getLast?` : the last one is the greatest;
* `records_eq_singleton_iff` : there is only one when the first element is the greatest.
-/

namespace Records
variable {α β : Type*} [LinearOrder β] {f : α → β} {bound : β} {a m : α} {as : List α}

def records (f : α → β) : β → List α → List α
  | _, [] => []
  | bound, a :: as => if bound < f a then a :: records f (f a) as else records f bound as

@[simp] theorem records_nil : records f bound [] = [] := rfl

theorem records_cons_of_lt (h : bound < f a) : records f bound (a :: as) = a :: records f (f a) as := if_pos h

theorem records_cons_of_le (h : f a ≤ bound) : records f bound (a :: as) = records f bound as :=
  if_neg (not_lt.mpr h)

theorem records_sublist (f : α → β) (bound : β) (as : List α) : (records f bound as).Sublist as := by
  induction as generalizing bound with
  | nil => exact List.Sublist.slnil
  | cons a as ih =>
    rcases lt_or_ge bound (f a) with h | h
    · rw [records_cons_of_lt h]
      exact (ih (f a)).cons_cons a
    · rw [records_cons_of_le h]
      exact (ih bound).cons a

theorem lt_of_mem_records (h : a ∈ records f bound as) : bound < f a := by
  induction as generalizing bound with
  | nil => cases h
  | cons b as ih =>
    rcases lt_or_ge bound (f b) with hb | hb
    · rw [records_cons_of_lt hb] at h
      rcases List.mem_cons.mp h with rfl | h
      · exact hb
      · exact hb.trans (ih h)
    · rw [records_cons_of_le hb] at h
      exact ih h

theorem records_pairwise (f : α → β) (bound : β) (as : List α) :
    (records f bound as).Pairwise fun a b => f a < f b := by
  induction as generalizing bound with
  | nil => exact List.Pairwise.nil
  | cons a as ih =>
    rcases lt_or_ge bound (f a) with h | h
    · rw [records_cons_of_lt h]
      exact (ih (f a)).cons fun b hb => lt_of_mem_records hb
    · rw [records_cons_of_le h]
      exact ih bound

theorem records_eq_nil_iff : records f bound as = [] ↔ ∀ a ∈ as, f a ≤ bound := by
  induction as generalizing bound with
  | nil => simp
  | cons a as ih =>
    rcases lt_or_ge bound (f a) with h | h
    · rw [records_cons_of_lt h, List.forall_mem_cons]
      simp [not_le.mpr h]
    · rw [records_cons_of_le h, ih, List.forall_mem_cons]
      simp [h]

/-- Nothing is above the last record. -/
theorem le_of_records_getLast? (h : (records f bound as).getLast? = some m) : ∀ a ∈ as, f a ≤ f m := by
  induction as generalizing bound with
  | nil => cases h
  | cons b as ih =>
    intro a ha
    rcases lt_or_ge bound (f b) with hb | hb
    · rw [records_cons_of_lt hb] at h
      cases hrest : records f (f b) as with
      | nil =>
        rw [hrest] at h
        obtain rfl : b = m := by simpa using h
        rcases List.mem_cons.mp ha with rfl | ha
        · exact le_rfl
        · exact records_eq_nil_iff.mp hrest a ha
      | cons c cs =>
        have hlast : (records f (f b) as).getLast? = some m := by
          rw [← h, hrest, List.getLast?_cons_cons]
        rcases List.mem_cons.mp ha with rfl | ha
        · exact (lt_of_mem_records (List.mem_of_getLast? hlast)).le
        · exact ih hlast a ha
    · rw [records_cons_of_le hb] at h
      rcases List.mem_cons.mp ha with rfl | ha
      · exact hb.trans (lt_of_mem_records (List.mem_of_getLast? h)).le
      · exact ih h a ha

/-- **A single record** is the first element, and the greatest. -/
theorem records_eq_singleton_iff (h : ∀ a ∈ as, bound < f a) :
    records f bound as = [m] ↔ as.head? = some m ∧ ∀ a ∈ as, f a ≤ f m := by
  cases as with
  | nil => simp
  | cons b as =>
    rw [records_cons_of_lt (h b List.mem_cons_self), List.cons.injEq, records_eq_nil_iff, List.head?_cons,
      Option.some.injEq, List.forall_mem_cons]
    constructor
    · rintro ⟨rfl, hle⟩
      exact ⟨rfl, le_rfl, hle⟩
    · rintro ⟨rfl, -, hle⟩
      exact ⟨rfl, hle⟩

end Records
