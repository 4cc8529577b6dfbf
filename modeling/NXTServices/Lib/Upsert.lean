import Mathlib.Data.List.Dedup
import Mathlib.Data.List.Induction
import Mathlib.Tactic.Common

/-!
# Rows with a key, merged or appended

* `upsert` : a row is merged into the first one with its key, or appended;
* `find?_upsert_self`, `find?_upsert_of_ne`, `map_key_upsert` : what an `upsert` does to the rows and their keys;
* `upsert_of_some`, `upsert_of_none` : where it does it;
* `rows` : a list of rows, one after the other;
* `find?_rows` : the row of a key is the merge of all that have it;
* `nodup_rows`, `mem_map_key_rows`, `length_rows` : its keys are those of the list, once each;
* `upsert_keep`, `find?_keep` : rows that are kept as they are.
-/

namespace Upsert
variable {α κ : Type*} [DecidableEq κ] {key : α → κ} {merge : α → α → α} {x : α} {l xs : List α} {k : κ}

def upsert (key : α → κ) (merge : α → α → α) (x : α) : List α → List α
  | [] => [x]
  | y :: ys => if key y = key x then merge y x :: ys else y :: upsert key merge x ys

theorem find?_upsert_of_ne (hmerge : ∀ y, key (merge y x) = key y) (h : key x ≠ k) :
    (upsert key merge x l).find? (key · = k) = l.find? (key · = k) := by
  induction l with
  | nil => exact List.find?_cons_of_neg (by simpa using h)
  | cons y ys ih =>
    unfold upsert
    split
    · next hy =>
      have hyk : key y ≠ k := hy ▸ h
      rw [List.find?_cons_of_neg (by simpa [hmerge] using hyk), List.find?_cons_of_neg (by simpa using hyk)]
    · by_cases hyk : key y = k
      · rw [List.find?_cons_of_pos (by simpa using hyk), List.find?_cons_of_pos (by simpa using hyk)]
      · rw [List.find?_cons_of_neg (by simpa using hyk), List.find?_cons_of_neg (by simpa using hyk), ih]

theorem find?_upsert_self (hmerge : ∀ y, key (merge y x) = key y) :
    (upsert key merge x l).find? (key · = key x) =
      match l.find? (key · = key x) with
      | some y => some (merge y x)
      | none => some x := by
  induction l with
  | nil => exact List.find?_cons_of_pos (by simp)
  | cons y ys ih =>
    unfold upsert
    split
    · next hy =>
      rw [List.find?_cons_of_pos (by simpa [hmerge] using hy), List.find?_cons_of_pos (by simpa using hy)]
    · next hy => rw [List.find?_cons_of_neg (by simpa using hy), List.find?_cons_of_neg (by simpa using hy), ih]

theorem map_key_upsert (hmerge : ∀ y, key (merge y x) = key y) :
    (upsert key merge x l).map key = if key x ∈ l.map key then l.map key else l.map key ++ [key x] := by
  induction l with
  | nil => rfl
  | cons y ys ih =>
    unfold upsert
    split
    · next hy => rw [List.map_cons, hmerge, ← List.map_cons, if_pos (by simp [hy])]
    · next hy =>
      rw [List.map_cons, ih, List.map_cons]
      by_cases hmem : key x ∈ ys.map key
      · rw [if_pos hmem, if_pos (List.mem_cons_of_mem _ hmem)]
      · rw [if_neg hmem, if_neg, List.cons_append]
        exact List.not_mem_cons_of_ne_of_not_mem (Ne.symm hy) hmem

theorem map_modify {β : Type*} {f : α → α} {g : α → β} {e : β → β} (h : ∀ y, g (f y) = e (g y)) (i : Nat) :
    (l.modify i f).map g = (l.map g).modify i e := by
  induction l generalizing i with
  | nil => rw [List.modify_nil, List.map_nil, List.modify_nil]
  | cons y ys ih =>
    cases i with
    | zero => rw [List.modify_zero_cons, List.map_cons, List.map_cons, List.modify_zero_cons, h]
    | succ i => rw [List.modify_succ_cons, List.map_cons, List.map_cons, List.modify_succ_cons, ih]

theorem modify_concat (f : α → α) (l : List α) (x : α) : (l ++ [x]).modify l.length f = l ++ [f x] := by
  induction l with
  | nil => rfl
  | cons y ys ih => rw [List.cons_append, List.length_cons, List.modify_succ_cons, ih, List.cons_append]

theorem upsert_of_some {i : Nat} (h : l.findIdx? (key · = key x) = some i) :
    upsert key merge x l = l.modify i fun y => merge y x := by
  induction l generalizing i with
  | nil => cases h
  | cons y ys ih =>
    rw [List.findIdx?_cons] at h
    unfold upsert
    by_cases hy : key y = key x
    · rw [if_pos (decide_eq_true hy)] at h
      rw [if_pos hy, ← Option.some.inj h, List.modify_zero_cons]
    · rw [if_neg (by simpa using hy)] at h
      obtain ⟨j, hj, rfl⟩ := Option.map_eq_some_iff.mp h
      rw [if_neg hy, ih hj, List.modify_succ_cons]

theorem upsert_of_none (h : l.findIdx? (key · = key x) = none) : upsert key merge x l = l ++ [x] := by
  induction l with
  | nil => rfl
  | cons y ys ih =>
    rw [List.findIdx?_cons] at h
    by_cases hy : key y = key x
    · rw [if_pos (decide_eq_true hy)] at h
      cases h
    · rw [if_neg (by simpa using hy), Option.map_eq_none_iff] at h
      rw [upsert, if_neg hy, ih h, List.cons_append]

theorem length_le_upsert (hmerge : ∀ y, key (merge y x) = key y) : l.length ≤ (upsert key merge x l).length := by
  have hlength := congrArg List.length (map_key_upsert (l := l) hmerge)
  rw [List.length_map] at hlength
  rw [hlength]
  split
  · exact Nat.le_of_eq (List.length_map key).symm
  · rw [List.length_append, List.length_map]
    exact Nat.le_add_right _ _

/-! ## A list of rows -/

/-- The merge of rows from the first one on. -/
def mergeAll (merge : α → α → α) : List α → Option α
  | [] => none
  | y :: ys => some (ys.foldl merge y)

theorem mergeAll_concat (ys : List α) (x : α) :
    mergeAll merge (ys ++ [x]) =
      match mergeAll merge ys with
      | some y => some (merge y x)
      | none => some x := by
  cases ys with
  | nil => rfl
  | cons y ys => simp only [mergeAll, List.cons_append, List.foldl_append, List.foldl_cons, List.foldl_nil]

def rows (key : α → κ) (merge : α → α → α) (xs : List α) : List α := xs.foldl (fun l x => upsert key merge x l) []

theorem rows_concat : rows key merge (xs ++ [x]) = upsert key merge x (rows key merge xs) := by
  rw [rows, List.foldl_append]
  rfl

/-- **The row of a key is the merge of all that have it**, in order. -/
theorem find?_rows (hmerge : ∀ y x, key (merge y x) = key y) (xs : List α) (k : κ) :
    (rows key merge xs).find? (key · = k) = mergeAll merge (xs.filter (key · = k)) := by
  induction xs using List.reverseRecOn with
  | nil => rfl
  | append_singleton xs x ih =>
    rw [rows_concat, List.filter_append]
    by_cases hx : key x = k
    · subst hx
      rw [find?_upsert_self fun y => hmerge y x, ih, List.filter_cons_of_pos (by simp), List.filter_nil,
        mergeAll_concat]
    · rw [find?_upsert_of_ne (fun y => hmerge y x) hx, ih, List.filter_cons_of_neg (by simpa using hx), List.filter_nil,
        List.append_nil]

theorem mem_map_key_rows (hmerge : ∀ y x, key (merge y x) = key y) (xs : List α) (k : κ) :
    k ∈ (rows key merge xs).map key ↔ k ∈ xs.map key := by
  induction xs using List.reverseRecOn with
  | nil => rfl
  | append_singleton xs x ih =>
    rw [rows_concat, map_key_upsert fun y => hmerge y x, List.map_append, List.mem_append, ← ih, List.map_singleton,
      List.mem_singleton]
    split
    · next hx => exact ⟨.inl, fun h => h.elim id fun hk => hk ▸ hx⟩
    · rw [List.mem_append, List.mem_singleton]

theorem nodup_rows (hmerge : ∀ y x, key (merge y x) = key y) (xs : List α) : ((rows key merge xs).map key).Nodup := by
  induction xs using List.reverseRecOn with
  | nil => exact List.nodup_nil
  | append_singleton xs x ih =>
    rw [rows_concat, map_key_upsert fun y => hmerge y x]
    split
    · exact ih
    · next hx => exact List.nodup_append.mpr ⟨ih, List.nodup_singleton _, fun k hk k' hk' h =>
        hx (List.mem_singleton.mp hk' ▸ h ▸ hk)⟩

/-- The first row is that of the first key. -/
theorem head?_rows (hmerge : ∀ y x, key (merge y x) = key y) (xs : List α) :
    (rows key merge xs).head?.map key = xs.head?.map key := by
  induction xs using List.reverseRecOn with
  | nil => rfl
  | append_singleton xs x ih =>
    rw [rows_concat, ← List.head?_map, map_key_upsert fun y => hmerge y x]
    cases xs with
    | nil => rfl
    | cons z zs =>
      rw [List.cons_append, List.head?_cons, Option.map_some]
      rw [List.head?_cons, Option.map_some, ← List.head?_map] at ih
      split
      · exact ih
      · rw [List.head?_append, ih]
        rfl

theorem length_rows (hmerge : ∀ y x, key (merge y x) = key y) (xs : List α) :
    (rows key merge xs).length = (xs.map key).dedup.length := by
  have hperm : ((rows key merge xs).map key).Perm (xs.map key).dedup := by
    rw [List.perm_ext_iff_of_nodup (nodup_rows hmerge xs) (List.nodup_dedup _)]
    intro k
    rw [mem_map_key_rows hmerge, List.mem_dedup]
  rw [← hperm.length_eq, List.length_map]

/-! ## Rows that are kept as they are -/

theorem upsert_keep (x : α) (l : List α) :
    upsert key (fun y _ => y) x l = if key x ∈ l.map key then l else l ++ [x] := by
  induction l with
  | nil => rfl
  | cons y ys ih =>
    rw [upsert, List.map_cons, ih]
    by_cases hy : key y = key x
    · rw [if_pos hy, if_pos (hy ▸ List.mem_cons_self)]
    · rw [if_neg hy]
      by_cases hmem : key x ∈ ys.map key
      · rw [if_pos hmem, if_pos (List.mem_cons_of_mem _ hmem)]
      · rw [if_neg hmem, if_neg (List.not_mem_cons_of_ne_of_not_mem (Ne.symm hy) hmem), List.cons_append]

/-- **What is searched by its key is the first of all rows.** -/
theorem find?_keep (p : κ → Bool) (xs : List α) :
    (rows key (fun y _ => y) xs).find? (fun y => p (key y)) = xs.find? fun y => p (key y) := by
  induction xs using List.reverseRecOn with
  | nil => rfl
  | append_singleton xs x ih =>
    rw [rows_concat, upsert_keep, List.find?_append, ← ih]
    split
    · next hmem =>
      by_cases hx : p (key x)
      · obtain ⟨y, hy, hkey⟩ := List.mem_map.mp hmem
        have hsome : ((rows key (fun y _ => y) xs).find? fun y => p (key y)).isSome :=
          List.find?_isSome.mpr ⟨y, hy, by rwa [hkey]⟩
        rw [Option.or_of_isSome hsome]
      · have hnone : [x].find? (fun y => p (key y)) = none := List.find?_cons_of_neg hx
        rw [hnone, Option.or_none]
    · rw [List.find?_append]

end Upsert
