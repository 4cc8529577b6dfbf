import Mathlib.Algebra.Notation.Defs
import Mathlib.Data.List.Induction
import Mathlib.Order.Lattice
import Mathlib.Tactic.Common

/-!
# A running minimum that is not set while it is zero

* `least` : an element replaces the one kept if its value is less, or if the value kept is zero;
* `least_mem`, `least_isSome` : an element of the list is kept;
* `Kept`, `least_kept` : what is known of its value, by sign;
* `least_le_iff` : it is the least one unless a zero comes before the last element;
* `least_le_of_pos` : among positive values it is.
-/

namespace Least
variable {α β : Type*} [LinearOrder β] [Zero β] {f : α → β} {x a : α} {xs : List α}

def step (f : α → β) (kept : Option α) (x : α) : Option α :=
  match kept with
  | none => some x
  | some a => if f a = 0 ∨ f x < f a then some x else some a

def least (f : α → β) (xs : List α) : Option α := xs.foldl (step f) none

@[simp] theorem least_nil : least f [] = none := rfl

theorem least_concat : least f (xs ++ [x]) = step f (least f xs) x := by
  rw [least, List.foldl_append]
  rfl

theorem least_isSome (h : xs ≠ []) : ∃ a, least f xs = some a := by
  rcases List.eq_nil_or_concat xs with rfl | ⟨ys, y, rfl⟩
  · exact absurd rfl h
  · rw [List.concat_eq_append, least_concat]
    unfold step
    split
    · exact ⟨y, rfl⟩
    · split
      · exact ⟨y, rfl⟩
      · exact ⟨_, rfl⟩

theorem least_mem (h : least f xs = some a) : a ∈ xs := by
  induction xs using List.reverseRecOn generalizing a with
  | nil => cases h
  | append_singleton xs x ih =>
    rw [least_concat] at h
    unfold step at h
    split at h
    · exact Option.some.inj h ▸ List.mem_append_right _ List.mem_cons_self
    · next b hb =>
      split at h
      · exact Option.some.inj h ▸ List.mem_append_right _ List.mem_cons_self
      · exact Option.some.inj h ▸ List.mem_append_left _ (ih hb)

/-- What is known of the value of the element `a` that is kept after `xs` and `x`. -/
inductive Kept (f : α → β) (xs : List α) (x a : α) : Prop where
  | neg (hneg : f a < 0) (hle : ∀ y ∈ xs ++ [x], f a ≤ f y)
  | zero (hzero : f a = 0) (hnonneg : ∀ y ∈ xs ++ [x], 0 ≤ f y) (hlast : f x = 0)
  | pos (hpos : 0 < f a) (hnonneg : ∀ y ∈ xs ++ [x], 0 ≤ f y) (hlast : f x ≠ 0)
      (hle : (∀ y ∈ xs ++ [x], f y ≠ 0) → ∀ y ∈ xs ++ [x], f a ≤ f y)

theorem forall_mem_concat {p : α → Prop} : (∀ y ∈ xs ++ [x], p y) ↔ (∀ y ∈ xs, p y) ∧ p x := by
  rw [List.forall_mem_append, List.forall_mem_singleton]

/-- The new element is kept. -/
theorem Kept.replace {y : α} (h : Kept f xs y a) (hreplace : f a = 0 ∨ f x < f a) : Kept f (xs ++ [y]) x x := by
  cases h with
  | neg hneg hle =>
    have hlt : f x < f a := hreplace.resolve_left (ne_of_lt hneg)
    exact .neg (hlt.trans hneg) (forall_mem_concat.mpr ⟨fun b hb => hlt.le.trans (hle b hb), le_refl _⟩)
  | zero hzero hnonneg hlast =>
    rcases lt_trichotomy (f x) 0 with hx | hx | hx
    · exact .neg hx (forall_mem_concat.mpr ⟨fun b hb => hx.le.trans (hnonneg b hb), le_refl _⟩)
    · exact .zero hx (forall_mem_concat.mpr ⟨hnonneg, hx.ge⟩) hx
    · refine .pos hx (forall_mem_concat.mpr ⟨hnonneg, hx.le⟩) (ne_of_gt hx) fun hne => ?_
      exact absurd hlast ((forall_mem_concat.mp (forall_mem_concat.mp hne).1).2)
  | pos hpos hnonneg hlast hle =>
    have hlt : f x < f a := hreplace.resolve_left (ne_of_gt hpos)
    rcases lt_trichotomy (f x) 0 with hx | hx | hx
    · exact .neg hx (forall_mem_concat.mpr ⟨fun b hb => hx.le.trans (hnonneg b hb), le_refl _⟩)
    · exact .zero hx (forall_mem_concat.mpr ⟨hnonneg, hx.ge⟩) hx
    · refine .pos hx (forall_mem_concat.mpr ⟨hnonneg, hx.le⟩) (ne_of_gt hx) fun hne => ?_
      have hall := hle (forall_mem_concat.mp hne).1
      exact forall_mem_concat.mpr ⟨fun b hb => hlt.le.trans (hall b hb), le_refl _⟩

theorem Kept.keep {y : α} (h : Kept f xs y a) (hkeep : ¬ (f a = 0 ∨ f x < f a)) : Kept f (xs ++ [y]) x a := by
  obtain ⟨hne, hge⟩ := not_or.mp hkeep
  have hle' : f a ≤ f x := not_lt.mp hge
  cases h with
  | neg hneg hle => exact .neg hneg (forall_mem_concat.mpr ⟨hle, hle'⟩)
  | zero hzero _ _ => exact absurd hzero hne
  | pos hpos hnonneg _ hle =>
    have hx : 0 < f x := hpos.trans_le hle'
    refine .pos hpos (forall_mem_concat.mpr ⟨hnonneg, hx.le⟩) (ne_of_gt hx) fun hnz => ?_
    exact forall_mem_concat.mpr ⟨hle (forall_mem_concat.mp hnz).1, hle'⟩

theorem kept_singleton (f : α → β) (x : α) : Kept f [] x x := by
  have hself : ∀ {p : α → Prop}, p x → ∀ y ∈ [] ++ [x], p y := fun h y hy => List.mem_singleton.mp hy ▸ h
  rcases lt_trichotomy (f x) 0 with hx | hx | hx
  · exact .neg hx (hself (le_refl _))
  · exact .zero hx (hself hx.ge) hx
  · exact .pos hx (hself hx.le) (ne_of_gt hx) fun _ => hself (le_refl _)

theorem least_kept (h : least f (xs ++ [x]) = some a) : Kept f xs x a := by
  induction xs using List.reverseRecOn generalizing x a with
  | nil => exact Option.some.inj h ▸ kept_singleton f x
  | append_singleton xs y ih =>
    obtain ⟨b, hb⟩ := least_isSome (f := f) (List.append_ne_nil_of_right_ne_nil xs (List.cons_ne_nil y []))
    rw [least_concat, hb] at h
    unfold step at h
    dsimp only at h
    split at h
    · next hreplace => exact Option.some.inj h ▸ (ih hb).replace hreplace
    · next hkeep => exact Option.some.inj h ▸ (ih hb).keep hkeep

/-- **When the element kept is a least one**: no value is zero, or one is negative, or the last one is zero. -/
theorem least_le_iff (h : least f (xs ++ [x]) = some a) :
    (∀ y ∈ xs ++ [x], f a ≤ f y) ↔
      (∀ y ∈ xs ++ [x], f y ≠ 0) ∨ (∃ y ∈ xs ++ [x], f y < 0) ∨ f x = 0 := by
  cases least_kept h with
  | neg hneg hle => exact iff_of_true hle (.inr (.inl ⟨a, least_mem h, hneg⟩))
  | zero hzero hnonneg hlast => exact iff_of_true (hzero ▸ hnonneg) (.inr (.inr hlast))
  | pos hpos hnonneg hlast hle =>
    constructor
    · intro hleast
      exact .inl fun y hy => ne_of_gt (hpos.trans_le (hleast y hy))
    · rintro (hne | ⟨y, hy, hneg⟩ | hzero)
      · exact hle hne
      · exact absurd hneg (not_lt.mpr (hnonneg y hy))
      · exact absurd hzero hlast

theorem least_le_of_pos (hpos : ∀ y ∈ xs, 0 < f y) (h : least f xs = some a) : ∀ y ∈ xs, f a ≤ f y := by
  rcases List.eq_nil_or_concat xs with rfl | ⟨ys, y, rfl⟩
  · cases h
  · rw [List.concat_eq_append] at h hpos ⊢
    exact (least_le_iff h).mpr (.inl fun z hz => ne_of_gt (hpos z hz))

end Least
