import Mathlib.Data.List.Nodup
import Mathlib.Data.List.Perm.Subperm
import Mathlib.Tactic.Common
import NXTServices.Lib.Arena

/-!
# Doubly linked lists in memory

* `Node`, `Linked` : nodes with a link to each side, and the head of a list of them;
* `Segment` : nodes linked in both directions, from the one behind `prev` to the one before `next`;
* `IsList` : the segment from the head on is the whole list;
* `pushFront`, `unlink`, `setVal`, `find` : the operations;
* `IsList.pushFront`, `IsList.unlink`, `IsList.setVal`, `IsList.find_eq` : what they do to the list.
-/

namespace Links
variable {α : Type*}

structure Node (α : Type*) where
  val : α
  next : Option Nat := none
  prev : Option Nat := none

structure Linked (α : Type*) where
  head : Option Nat := none
  nodes : Arena (Node α)

namespace Linked
variable (s : Linked α)

def val (r : Nat) : α := (s.nodes.cell r).val

/-- The pointer from `p`, or from the head, is set. -/
def setNext (p next : Option Nat) : Linked α :=
  match p with
  | none => { s with head := next }
  | some p => { s with nodes := s.nodes.modify p fun n => { n with next := next } }

/-- The pointer back from `q`, if it is a node, is set. -/
def setPrev (q prev : Option Nat) : Linked α :=
  match q with
  | none => s
  | some q => { s with nodes := s.nodes.modify q fun n => { n with prev := prev } }

/-- A new node before the first one. -/
def pushFront (x : α) : Linked α :=
  ({ head := some s.nodes.next, nodes := s.nodes.alloc { val := x, next := s.head } } : Linked α).setPrev s.head
    (some s.nodes.next)

/-- The nodes on both sides of `r` are linked to each other. -/
def unlink (r : Nat) : Linked α :=
  let n := s.nodes.cell r
  (s.setNext n.prev n.next).setPrev n.next n.prev

def setVal (r : Nat) (f : α → α) : Linked α :=
  { s with nodes := s.nodes.modify r fun n => { n with val := f n.val } }

/-- The walk from a node on, in `fuel` rounds. -/
def findFrom (p : α → Bool) : Nat → Option Nat → Option Nat
  | 0, _ => none
  | _, none => none
  | fuel + 1, some r => if p (s.val r) then some r else findFrom p fuel (s.nodes.cell r).next

/-- The first node whose value satisfies `p`. -/
def find (p : α → Bool) : Option Nat := s.findFrom p s.nodes.next s.head

end Linked

/-! ## Segments -/

/-- The nodes `rs`, from the pointer `first` that comes out of `prev` to the pointer `next` that comes out of `last`. -/
def Segment (cell : Nat → Node α) : Option Nat → Option Nat → List Nat → Option Nat → Option Nat → Prop
  | prev, first, [], last, next => last = prev ∧ first = next
  | prev, first, r :: rs, last, next =>
    first = some r ∧ (cell r).prev = prev ∧ Segment cell (some r) (cell r).next rs last next

section
variable {cell cell' : Nat → Node α} {prev first last next : Option Nat} {rs l₁ l₂ : List Nat} {p q r : Nat}

theorem segment_append :
    Segment cell prev first (l₁ ++ l₂) last next ↔
      ∃ m n, Segment cell prev first l₁ m n ∧ Segment cell m n l₂ last next := by
  induction l₁ generalizing prev first with
  | nil =>
    constructor
    · exact fun h => ⟨prev, first, ⟨rfl, rfl⟩, h⟩
    · rintro ⟨m, n, ⟨rfl, rfl⟩, h⟩
      exact h
  | cons r rs ih =>
    simp only [List.cons_append, Segment, ih]
    constructor
    · rintro ⟨hfirst, hprev, m, n, h₁, h₂⟩
      exact ⟨m, n, ⟨hfirst, hprev, h₁⟩, h₂⟩
    · rintro ⟨m, n, ⟨hfirst, hprev, h₁⟩, h₂⟩
      exact ⟨hfirst, hprev, m, n, h₁, h₂⟩

theorem Segment.congr (h : Segment cell prev first rs last next)
    (hcell : ∀ r ∈ rs, (cell' r).next = (cell r).next ∧ (cell' r).prev = (cell r).prev) :
    Segment cell' prev first rs last next := by
  induction rs generalizing prev first with
  | nil => exact h
  | cons r rs ih =>
    obtain ⟨hfirst, hprev, hrest⟩ := h
    obtain ⟨hnext, hback⟩ := hcell r List.mem_cons_self
    refine ⟨hfirst, hback.trans hprev, ?_⟩
    rw [hnext]
    exact ih hrest fun q hq => hcell q (List.mem_cons_of_mem _ hq)

theorem Segment.last_mem (h : Segment cell prev first rs last next) (hne : rs ≠ []) : ∃ p ∈ rs, last = some p := by
  induction rs generalizing prev first with
  | nil => exact absurd rfl hne
  | cons r rs ih =>
    obtain ⟨-, -, hrest⟩ := h
    by_cases hrs : rs = []
    · subst hrs
      exact ⟨r, List.mem_cons_self, hrest.1⟩
    · obtain ⟨p, hp, hlast⟩ := ih hrest hrs
      exact ⟨p, List.mem_cons_of_mem _ hp, hlast⟩

/-- The pointer out of the last node is changed. -/
theorem Segment.set_last {next' : Option Nat} (h : Segment cell prev first rs (some p) next) (hp : p ∈ rs)
    (hnodup : rs.Nodup) (hlast : (cell' p).next = next' ∧ (cell' p).prev = (cell p).prev)
    (hcell : ∀ r ∈ rs, r ≠ p → (cell' r).next = (cell r).next ∧ (cell' r).prev = (cell r).prev) :
    Segment cell' prev first rs (some p) next' := by
  induction rs generalizing prev first with
  | nil => cases hp
  | cons r rs ih =>
    obtain ⟨hfirst, hprev, hrest⟩ := h
    obtain ⟨hr, hrs⟩ := List.nodup_cons.mp hnodup
    by_cases hnil : rs = []
    · subst hnil
      obtain rfl : r = p := (Option.some.inj hrest.1).symm
      exact ⟨hfirst, hlast.2.trans hprev, rfl, hlast.1⟩
    · obtain ⟨q, hq, hqp⟩ := hrest.last_mem hnil
      obtain rfl := Option.some.inj hqp
      have hne : r ≠ p := fun heq => hr (heq ▸ hq)
      obtain ⟨hnext, hback⟩ := hcell r List.mem_cons_self hne
      refine ⟨hfirst, hback.trans hprev, ?_⟩
      rw [hnext]
      exact ih hrest hq hrs fun a ha => hcell a (List.mem_cons_of_mem _ ha)

theorem Segment.set_first {prev' : Option Nat} (h : Segment cell prev first (q :: rs) last next)
    (hfirst : (cell' q).next = (cell q).next ∧ (cell' q).prev = prev')
    (hcell : ∀ r ∈ rs, (cell' r).next = (cell r).next ∧ (cell' r).prev = (cell r).prev) :
    Segment cell' prev' first (q :: rs) last next := by
  obtain ⟨hq, -, hrest⟩ := h
  refine ⟨hq, hfirst.2, ?_⟩
  rw [hfirst.1]
  exact hrest.congr hcell

end

/-! ## The operations -/

/-- The nodes `rs` are the list, each of them once. -/
structure IsList (s : Linked α) (rs : List Nat) : Prop where
  linked : ∃ last, Segment s.nodes.cell none s.head rs last none
  nodup : rs.Nodup
  lt : ∀ r ∈ rs, r < s.nodes.next

section
variable {s : Linked α} {rs l₁ l₂ : List Nat} {r : Nat} {m n q : Option Nat} {x : α} {f : α → α} {p : α → Bool}

theorem isList_nil (h : s.head = none) : IsList s [] :=
    ⟨⟨none, rfl, h⟩, List.nodup_nil, fun _ h => absurd h List.not_mem_nil⟩

namespace Linked

theorem setNext_next (p next : Option Nat) : (s.setNext p next).nodes.next = s.nodes.next := by cases p <;> rfl

theorem setPrev_next (q prev : Option Nat) : (s.setPrev q prev).nodes.next = s.nodes.next := by cases q <;> rfl

theorem setPrev_head (q prev : Option Nat) : (s.setPrev q prev).head = s.head := by cases q <;> rfl

theorem setNext_some (p : Nat) (next : Option Nat) :
    (s.setNext (some p) next).nodes = s.nodes.modify p fun n => { n with next := next } := rfl

theorem setPrev_some (q : Nat) (prev : Option Nat) :
    (s.setPrev (some q) prev).nodes = s.nodes.modify q fun n => { n with prev := prev } := rfl

theorem setVal_nodes (r : Nat) (f : α → α) :
    (s.setVal r f).nodes = s.nodes.modify r fun n => { n with val := f n.val } := rfl

theorem setNext_of_ne {p : Option Nat} (h : p ≠ some r) (next : Option Nat) :
    (s.setNext p next).nodes.cell r = s.nodes.cell r := by
  cases p with
  | none => rfl
  | some p =>
    rw [setNext_some, Arena.modify_cell]
    exact if_neg fun heq => h (congrArg some heq.symm)

theorem setPrev_of_ne (h : q ≠ some r) (prev : Option Nat) :
    (s.setPrev q prev).nodes.cell r = s.nodes.cell r := by
  cases q with
  | none => rfl
  | some q =>
    rw [setPrev_some, Arena.modify_cell]
    exact if_neg fun heq => h (congrArg some heq.symm)

theorem setNext_val (p next : Option Nat) (r : Nat) : (s.setNext p next).val r = s.val r := by
  cases p with
  | none => rfl
  | some p =>
    unfold val
    rw [setNext_some]
    apply Arena.modify_proj Node.val
    exact fun _ => rfl

theorem setPrev_val (q prev : Option Nat) (r : Nat) : (s.setPrev q prev).val r = s.val r := by
  cases q with
  | none => rfl
  | some q =>
    unfold val
    rw [setPrev_some]
    apply Arena.modify_proj Node.val
    exact fun _ => rfl

theorem unlink_val (r q : Nat) : (s.unlink r).val q = s.val q := (setPrev_val _ _ q).trans (setNext_val _ _ q)

theorem pushFront_val_self : (s.pushFront x).val s.nodes.next = x := by
  unfold pushFront
  rw [setPrev_val]
  exact congrArg Node.val Arena.alloc_cell_next

theorem pushFront_val_of_lt (h : r < s.nodes.next) : (s.pushFront x).val r = s.val r := by
  unfold pushFront
  rw [setPrev_val]
  exact congrArg Node.val (Arena.alloc_cell_of_lt h)

theorem setVal_val_self : (s.setVal r f).val r = f (s.val r) := by
  unfold val
  rw [setVal_nodes, Arena.modify_cell_self]

theorem setVal_val_of_ne {q : Nat} (h : q ≠ r) : (s.setVal r f).val q = s.val q := by
  unfold val
  rw [setVal_nodes, Arena.modify_cell, if_neg h]

end Linked

theorem Segment.setNext (h : Segment s.nodes.cell none s.head l₁ m n) (hnodup : l₁.Nodup) (next : Option Nat) :
    Segment (s.setNext m next).nodes.cell none (s.setNext m next).head l₁ m next := by
  by_cases hnil : l₁ = []
  · subst hnil
    obtain ⟨rfl, -⟩ := h
    exact ⟨rfl, rfl⟩
  · obtain ⟨p, hp, rfl⟩ := h.last_mem hnil
    refine h.set_last hp hnodup ⟨?_, ?_⟩ fun r _ hr => ?_
    · rw [Linked.setNext_some, Arena.modify_cell_self]
    · rw [Linked.setNext_some, Arena.modify_cell_self]
    · have hne : some p ≠ some r := fun heq => hr (Option.some.inj heq).symm
      rw [Linked.setNext_of_ne hne]
      exact ⟨rfl, rfl⟩

theorem Segment.setPrev {prev last : Option Nat} (h : Segment s.nodes.cell prev q l₂ last none) (hnodup : l₂.Nodup)
    (prev' : Option Nat) : ∃ last', Segment (s.setPrev q prev').nodes.cell prev' q l₂ last' none := by
  cases l₂ with
  | nil => exact ⟨prev', rfl, h.2⟩
  | cons a rest =>
    obtain rfl : q = some a := h.1
    refine ⟨last, h.set_first ⟨?_, ?_⟩ fun r hr => ?_⟩
    · rw [Linked.setPrev_some, Arena.modify_cell_self]
    · rw [Linked.setPrev_some, Arena.modify_cell_self]
    · have hne : some a ≠ some r := fun heq => (List.nodup_cons.mp hnodup).1 (Option.some.inj heq ▸ hr)
      rw [Linked.setPrev_of_ne hne]
      exact ⟨rfl, rfl⟩

theorem Segment.first_mem {prev last : Option Nat} {a : Nat} (h : Segment s.nodes.cell prev (some a) l₂ last none) :
    a ∈ l₂ := by
  cases l₂ with
  | nil => cases h.2
  | cons b rest => exact Option.some.inj h.1 ▸ List.mem_cons_self

theorem Segment.setPrev_frame {prev last first : Option Nat} {l : List Nat}
    (h₁ : Segment s.nodes.cell first n l₁ m q) (h₂ : Segment s.nodes.cell prev q l last none)
    (hdisjoint : ∀ r ∈ l₁, r ∉ l) (prev' : Option Nat) :
    Segment (s.setPrev q prev').nodes.cell first n l₁ m q := by
  refine h₁.congr fun r hr => ?_
  have hne : q ≠ some r := by
    rintro rfl
    exact hdisjoint r hr h₂.first_mem
  rw [Linked.setPrev_of_ne hne]
  exact ⟨rfl, rfl⟩

/-- **A new node comes first.** -/
theorem IsList.pushFront (h : IsList s rs) (x : α) : IsList (s.pushFront x) (s.nodes.next :: rs) := by
  obtain ⟨last, hseg⟩ := h.linked
  have hfresh : s.nodes.next ∉ rs := fun hmem => Nat.lt_irrefl _ (h.lt _ hmem)
  refine ⟨?_, List.nodup_cons.mpr ⟨hfresh, h.nodup⟩, ?_⟩
  · let s' : Linked α := { head := some s.nodes.next, nodes := s.nodes.alloc { val := x, next := s.head } }
    have hseg' : Segment s'.nodes.cell none s.head rs last none := by
      refine hseg.congr fun r hr => ?_
      rw [show s'.nodes.cell r = s.nodes.cell r from Arena.alloc_cell_of_lt (h.lt r hr)]
      exact ⟨rfl, rfl⟩
    have hnew : s'.nodes.cell s.nodes.next = { val := x, next := s.head } := Arena.alloc_cell_next
    obtain ⟨last', hrest⟩ := hseg'.setPrev h.nodup (some s.nodes.next)
    have hne : s.head ≠ some s.nodes.next := by
      intro heq
      rw [heq] at hseg
      exact hfresh hseg.first_mem
    refine ⟨last', ?_⟩
    show Segment (s'.setPrev s.head (some s.nodes.next)).nodes.cell none
      (s'.setPrev s.head (some s.nodes.next)).head (s.nodes.next :: rs) last' none
    rw [Linked.setPrev_head]
    refine ⟨rfl, ?_, ?_⟩
    · rw [Linked.setPrev_of_ne hne, hnew]
    · rw [Linked.setPrev_of_ne hne, hnew]
      exact hrest
  · intro r hr
    show r < (Linked.setPrev _ _ _).nodes.next
    rw [Linked.setPrev_next]
    rcases List.mem_cons.mp hr with rfl | hr
    · exact Nat.lt_succ_self _
    · exact Nat.lt_succ_of_lt (h.lt r hr)

/-- **A node is taken out.** -/
theorem IsList.unlink (h : IsList s (l₁ ++ r :: l₂)) : IsList (s.unlink r) (l₁ ++ l₂) := by
  obtain ⟨last, hseg⟩ := h.linked
  obtain ⟨m, n, hfront, hn, hprev, hback⟩ := segment_append.mp hseg
  obtain ⟨hnodup₁, hnodup, hdisjoint⟩ := List.nodup_append.mp h.nodup
  have hnodup₂ := (List.nodup_cons.mp hnodup).2
  have hapart : ∀ a ∈ l₁, a ∉ l₂ := fun a ha ha' => hdisjoint a ha a (List.mem_cons_of_mem _ ha') rfl
  set next := (s.nodes.cell r).next with hnext
  have hfront' := hfront.setNext hnodup₁ next
  have hback' : Segment (s.setNext m next).nodes.cell (some r) next l₂ last none := by
    refine hback.congr fun a ha => ?_
    have hne : m ≠ some a := by
      rintro rfl
      by_cases hnil : l₁ = []
      · subst hnil
        cases hfront.1
      · obtain ⟨b, hb, heq⟩ := hfront.last_mem hnil
        exact hapart b hb (Option.some.inj heq ▸ ha)
    rw [Linked.setNext_of_ne hne]
    exact ⟨rfl, rfl⟩
  obtain ⟨last', hback''⟩ := hback'.setPrev hnodup₂ m
  have hfront'' := hfront'.setPrev_frame hback' hapart m
  have heq : s.unlink r = (s.setNext m next).setPrev next m := by rw [Linked.unlink, hprev, ← hnext]
  refine ⟨⟨last', ?_⟩, ?_, ?_⟩
  · rw [heq, Linked.setPrev_head]
    exact segment_append.mpr ⟨m, next, hfront'', hback''⟩
  · exact List.nodup_append.mpr ⟨hnodup₁, hnodup₂, fun a ha b hb => hdisjoint a ha b (List.mem_cons_of_mem _ hb)⟩
  · intro a ha
    rw [heq, Linked.setPrev_next, Linked.setNext_next]
    refine h.lt a ?_
    rcases List.mem_append.mp ha with ha | ha
    · exact List.mem_append_left _ ha
    · exact List.mem_append_right _ (List.mem_cons_of_mem _ ha)

theorem IsList.setVal (h : IsList s rs) (r : Nat) (f : α → α) : IsList (s.setVal r f) rs := by
  obtain ⟨last, hseg⟩ := h.linked
  refine ⟨⟨last, hseg.congr fun a _ => ?_⟩, h.nodup, h.lt⟩
  rw [Linked.setVal_nodes]
  constructor
  · apply Arena.modify_proj Node.next
    exact fun _ => rfl
  · apply Arena.modify_proj Node.prev
    exact fun _ => rfl

theorem Segment.findFrom_eq {prev first last : Option Nat} (h : Segment s.nodes.cell prev first rs last none)
    {fuel : Nat} (hfuel : rs.length ≤ fuel) : s.findFrom p fuel first = rs.find? fun r => p (s.val r) := by
  induction rs generalizing prev first fuel with
  | nil =>
    obtain ⟨-, rfl⟩ := h
    cases fuel with
    | zero => rfl
    | succ fuel => rfl
  | cons r rs ih =>
    obtain ⟨rfl, -, hrest⟩ := h
    cases fuel with
    | zero => cases hfuel
    | succ fuel =>
      unfold Linked.findFrom
      split
      · next hp => rw [List.find?_cons_of_pos (by exact hp)]
      · next hp =>
        rw [List.find?_cons_of_neg (by exact hp)]
        exact ih hrest (Nat.le_of_succ_le_succ hfuel)

theorem Segment.unique {prev first last last' : Option Nat} {rs' : List Nat}
    (h : Segment s.nodes.cell prev first rs last none) (h' : Segment s.nodes.cell prev first rs' last' none) :
    rs = rs' := by
  induction rs generalizing prev first rs' with
  | nil =>
    obtain ⟨-, rfl⟩ := h
    cases rs' with
    | nil => rfl
    | cons r' rs' => cases h'.1
  | cons r rs ih =>
    obtain ⟨rfl, -, hrest⟩ := h
    cases rs' with
    | nil => cases h'.2
    | cons r' rs' =>
      obtain ⟨hfirst, -, hrest'⟩ := h'
      obtain rfl := Option.some.inj hfirst
      rw [ih hrest hrest']

theorem IsList.unique {rs' : List Nat} (h : IsList s rs) (h' : IsList s rs') : rs = rs' := by
  obtain ⟨_, hseg⟩ := h.linked
  obtain ⟨_, hseg'⟩ := h'.linked
  exact hseg.unique hseg'

/-- **The walk finds the first node of the list.** -/
theorem IsList.find_eq (h : IsList s rs) (p : α → Bool) : s.find p = rs.find? fun r => p (s.val r) := by
  obtain ⟨last, hseg⟩ := h.linked
  refine hseg.findFrom_eq ?_
  have hsub : rs ⊆ List.range s.nodes.next := fun r hr => List.mem_range.mpr (h.lt r hr)
  have hle := (List.subperm_of_subset h.nodup hsub).length_le
  rwa [List.length_range] at hle

end

end Links
