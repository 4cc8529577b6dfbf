import Mathlib.Logic.Function.Basic

/-!
# Cells handed out one after another

* `Arena` : the cells of `calloc` calls, `next` being the one the next call returns;
* `alloc`, `modify` : a new cell, and a write through a pointer to one.
-/

/-- Cells by address; those from `next` on are not in use. -/
structure Arena (α : Type*) where
  next : Nat := 0
  cell : Nat → α

namespace Arena
variable {α : Type*} {a b : Arena α} {r q : Nat} {x : α} {f g : α → α}

/-- A new cell, at `a.next`. -/
def alloc (a : Arena α) (x : α) : Arena α where
  next := a.next + 1
  cell := Function.update a.cell a.next x

def modify (a : Arena α) (r : Nat) (f : α → α) : Arena α where
  next := a.next
  cell := Function.update a.cell r (f (a.cell r))

@[simp] theorem alloc_next : (a.alloc x).next = a.next + 1 := rfl

@[simp] theorem alloc_cell_next : (a.alloc x).cell a.next = x := Function.update_self ..

theorem alloc_cell (r : Nat) : (a.alloc x).cell r = if r = a.next then x else a.cell r :=
  Function.update_apply ..

theorem alloc_cell_of_ne (h : r ≠ a.next) : (a.alloc x).cell r = a.cell r := Function.update_of_ne h ..

theorem alloc_cell_of_lt (h : r < a.next) : (a.alloc x).cell r = a.cell r := alloc_cell_of_ne (Nat.ne_of_lt h)

@[simp] theorem modify_next : (a.modify r f).next = a.next := rfl

@[simp] theorem modify_cell_self : (a.modify r f).cell r = f (a.cell r) := Function.update_self ..

theorem modify_cell (q : Nat) : (a.modify r f).cell q = if q = r then f (a.cell r) else a.cell q :=
  Function.update_apply ..

theorem modify_modify : (a.modify r f).modify r g = a.modify r (g ∘ f) := by
  simp [modify]

theorem alloc_modify : (a.alloc x).modify a.next f = a.alloc (f x) := by
  simp [modify, alloc]

theorem modify_proj {β : Type*} (p : α → β) (h : ∀ x, p (f x) = p x) (q : Nat) :
    p ((a.modify r f).cell q) = p (a.cell q) := by
  rw [modify_cell]
  split
  · next heq => rw [h, heq]
  · rfl

end Arena
