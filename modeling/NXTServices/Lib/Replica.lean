import Mathlib.Data.List.Induction
import Mathlib.Logic.Function.Basic

/-!
# A map that is followed by its updates

* `Update`, `play` : a key with its new value, and the map that a log of updates leaves;
* `latest`, `play_eq` : the last update of a key, which alone decides;
* `Follows` : nothing that a log says last contradicts a map;
* `Covers` : a log names each key that the map has;
* `IsCopy` : updates that write the map out;
* `play_eq_of_follows` : **a log with a copy in it gives the map**, from any point before the copy on.
-/

namespace Replica
variable {K V : Type*}

structure Update (K V : Type*) where
  key : K
  value : Option V

section
variable [DecidableEq K] {m : K → Option V} {log early late kept snapshot : List (Update K V)} {u : Update K V} {k : K}

def play (m : K → Option V) (log : List (Update K V)) : K → Option V :=
  log.foldl (fun m u => Function.update m u.key u.value) m

def latest (log : List (Update K V)) (k : K) : Option (Update K V) := log.reverse.find? fun u => u.key = k

theorem latest_append (log log' : List (Update K V)) (k : K) :
    latest (log ++ log') k = (latest log' k).or (latest log k) := by
  unfold latest
  rw [List.reverse_append, List.find?_append]

theorem latest_concat (log : List (Update K V)) (u : Update K V) (k : K) :
    latest (log ++ [u]) k = if u.key = k then some u else latest log k := by
  rw [latest_append]
  by_cases h : u.key = k
  · have hone : latest [u] k = some u := List.find?_cons_of_pos (decide_eq_true h)
    rw [if_pos h, hone, Option.some_or]
  · have hnone : latest [u] k = none := List.find?_cons_of_neg (by simpa using h)
    rw [if_neg h, hnone, Option.none_or]

theorem mem_of_latest (h : latest log k = some u) : u ∈ log ∧ u.key = k := by
  have hkey := List.find?_some h
  exact ⟨List.mem_reverse.mp (List.mem_of_find?_eq_some h), of_decide_eq_true hkey⟩

theorem latest_isSome (hu : u ∈ log) : (latest log u.key).isSome :=
  List.find?_isSome.mpr ⟨u, List.mem_reverse.mpr hu, decide_eq_true rfl⟩

theorem play_concat (m : K → Option V) (log : List (Update K V)) (u : Update K V) :
    play m (log ++ [u]) = Function.update (play m log) u.key u.value := by
  unfold play
  rw [List.foldl_append]
  rfl

theorem play_eq (m : K → Option V) (log : List (Update K V)) (k : K) :
    play m log k = match latest log k with
      | some u => u.value
      | none => m k := by
  induction log using List.reverseRecOn with
  | nil => rfl
  | append_singleton log u ih =>
    rw [play_concat, latest_concat]
    by_cases h : u.key = k
    · rw [if_pos h, ← h, Function.update_self]
    · rw [if_neg h, Function.update_of_ne (Ne.symm h), ih]

/-! ## A map and its log -/

/-- What the log says last of a key is so. -/
def Follows (m : K → Option V) (log : List (Update K V)) : Prop := ∀ k u, latest log k = some u → u.value = m k

/-- The log names the keys of the map. -/
def Covers (m : K → Option V) (log : List (Update K V)) : Prop := ∀ k, m k ≠ none → (latest log k).isSome

/-- The updates write out the map. -/
structure IsCopy (m : K → Option V) (snapshot : List (Update K V)) : Prop where
  value : ∀ u ∈ snapshot, u.value = m u.key
  key : ∀ k, m k ≠ none → ∃ u ∈ snapshot, u.key = k

theorem follows_nil (m : K → Option V) : Follows m [] := fun _ _ h => by cases h

theorem Follows.update (h : Follows m log) (u : Update K V) :
    Follows (Function.update m u.key u.value) (log ++ [u]) := by
  intro k v hv
  rw [latest_concat] at hv
  by_cases hk : u.key = k
  · rw [if_pos hk] at hv
    rw [← hk, Function.update_self, Option.some.inj hv]
  · rw [if_neg hk] at hv
    rw [Function.update_of_ne (Ne.symm hk)]
    exact h k v hv

theorem Covers.update (h : Covers m log) (u : Update K V) : Covers (Function.update m u.key u.value) (log ++ [u]) := by
  intro k hk
  rw [latest_concat]
  split
  · rfl
  · next hne =>
    rw [Function.update_of_ne (Ne.symm hne)] at hk
    exact h k hk

theorem Follows.copy (h : Follows m log) (hcopy : IsCopy m snapshot) : Follows m (log ++ snapshot) := by
  intro k u hu
  rw [latest_append] at hu
  rcases Option.or_eq_some_iff.mp hu with hlast | ⟨-, hlog⟩
  · obtain ⟨hmem, rfl⟩ := mem_of_latest hlast
    exact hcopy.value u hmem
  · exact h k u hlog

theorem IsCopy.covers (hcopy : IsCopy m snapshot) (log : List (Update K V)) : Covers m (log ++ snapshot) := by
  intro k hk
  obtain ⟨u, hu, rfl⟩ := hcopy.key k hk
  exact latest_isSome (List.mem_append_right log hu)

/-- **A log with a copy in it gives the map**, from any point before the copy on. -/
theorem play_eq_of_follows (hfollows : Follows m (early ++ late)) (hcovers : Covers m late) (hkept : kept <:+ early) :
    play (fun _ => none) (kept ++ late) = m := by
  obtain ⟨lost, rfl⟩ := hkept
  funext k
  rw [play_eq]
  cases hlatest : latest (kept ++ late) k with
  | some u =>
    apply hfollows k u
    rw [List.append_assoc, latest_append, hlatest, Option.some_or]
  | none =>
    rw [latest_append, Option.or_eq_none_iff] at hlatest
    by_contra hne
    have hnamed := hcovers k (Ne.symm hne)
    rw [hlatest.1] at hnamed
    cases hnamed

end

end Replica
