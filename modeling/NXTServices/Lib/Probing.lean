import Mathlib.Data.List.Perm.Basic
import Mathlib.Data.Nat.ModEq
import Mathlib.Data.List.Nodup
import Mathlib.Tactic.Common

/-!
# Open addressing with linear probing

A table of `n` slots over any entry type `ε` with a key in `κ` and any hash `home`. A search starts
at the home slot of its key and walks on, from the last slot back to the first.

* `probe`, `search` : the walk;
* `Probed` : distinct keys, and no free slot between the home of an entry and its slot;
* `Probed.search_of_mem`, `search_of_not_mem`, `search_eq_none_iff` : what a search answers;
* `Probed.insert` : filling the free slot a search answers keeps `Probed`;
* `entries`, `entries_set_perm` : the entries stored, and the effect of filling a slot on them.
-/

namespace OpenAddressing

variable {κ ε : Type} (key : ε → κ) (home : κ → Nat) (n : Nat)

/-- The entry of slot `j`. -/
abbrev slot (slots : List (Option ε)) (j : Nat) : Option ε := slots[j]?.join

/-- The first slot from `ind` on that is free or holds `k`, among `fuel` slots. -/
def probe [DecidableEq κ] (slots : List (Option ε)) (k : κ) : Nat → Nat → Option Nat
  | 0, _ => none
  | fuel + 1, ind =>
    let ind := if n ≤ ind then 0 else ind
    match slot slots ind with
    | none => some ind
    | some e => if key e = k then some ind else probe slots k fuel (ind + 1)

def search [DecidableEq κ] (slots : List (Option ε)) (k : κ) : Option Nat :=
  probe key n slots k n (home k % n)

/-- The slot a probe for `k` stops at: a free one, or the one that holds `k`. -/
def Stops (slots : List (Option ε)) (k : κ) (j : Nat) : Prop :=
  ∀ e, slot slots j = some e → key e = k

structure Probed (slots : List (Option ε)) : Prop where
  length_eq : slots.length = n
  distinct : ∀ i j e e', slot slots i = some e → slot slots j = some e' → key e = key e' → i = j
  path : ∀ i e, slot slots i = some e → ∃ d < n, (home (key e) % n + d) % n = i ∧
    ∀ d' < d, slot slots ((home (key e) % n + d') % n) ≠ none

/-! ## The walk -/

variable {key home n}

theorem wrap_eq_mod {ind : Nat} (hind : ind ≤ n) : (if n ≤ ind then 0 else ind) = ind % n := by
  split
  · rw [show ind = n by omega, Nat.mod_self]
  · rw [Nat.mod_eq_of_lt (by omega)]

theorem step_mod (ind d : Nat) : (ind % n + 1 + d) % n = (ind + (d + 1)) % n := by
  rw [show ind % n + 1 + d = ind % n + (d + 1) by omega, Nat.mod_add_mod]

section Walk
variable [DecidableEq κ]

theorem probe_succ {slots : List (Option ε)} {k : κ} {fuel ind : Nat} (hind : ind ≤ n) :
    probe key n slots k (fuel + 1) ind =
      match slot slots (ind % n) with
      | none => some (ind % n)
      | some e => if key e = k then some (ind % n) else probe key n slots k fuel (ind % n + 1) := by
  rw [probe, wrap_eq_mod hind]

theorem probe_succ_of_stops {slots : List (Option ε)} {k : κ} {fuel ind : Nat} (hind : ind ≤ n)
    (h : Stops key slots k (ind % n)) : probe key n slots k (fuel + 1) ind = some (ind % n) := by
  rw [probe_succ hind]
  cases hs : slot slots (ind % n) with
  | none => rfl
  | some e => simp [h e hs]

theorem probe_succ_of_not_stops {slots : List (Option ε)} {k : κ} {fuel ind : Nat} (hind : ind ≤ n)
    (h : ¬ Stops key slots k (ind % n)) :
    probe key n slots k (fuel + 1) ind = probe key n slots k fuel (ind % n + 1) := by
  rw [probe_succ hind]
  unfold Stops at h
  push Not at h
  obtain ⟨e, he, hk⟩ := h
  simp [he, hk]

/-- A probe answers the first slot it stops at. -/
theorem probe_of_first {slots : List (Option ε)} {k : κ} (hn : 0 < n) :
    ∀ {fuel ind d : Nat}, ind ≤ n → d < fuel → Stops key slots k ((ind + d) % n) →
      (∀ d' < d, ¬ Stops key slots k ((ind + d') % n)) →
      probe key n slots k fuel ind = some ((ind + d) % n) := by
  intro fuel
  induction fuel with
  | zero => intro ind d _ hd; omega
  | succ fuel ih =>
    intro ind d hind hd hstop hfirst
    cases d with
    | zero => exact probe_succ_of_stops hind hstop
    | succ d =>
      rw [probe_succ_of_not_stops hind (hfirst 0 (by omega)), ← step_mod]
      refine ih (Nat.mod_lt ind hn) (by omega) ?_ fun d' hd' => ?_
      · rwa [step_mod]
      · rw [step_mod]
        exact hfirst (d' + 1) (by omega)

theorem probe_eq_some {slots : List (Option ε)} {k : κ} (hn : 0 < n) :
    ∀ {fuel ind j : Nat}, ind ≤ n → probe key n slots k fuel ind = some j →
      ∃ d < fuel, (ind + d) % n = j ∧ Stops key slots k j ∧
        ∀ d' < d, ¬ Stops key slots k ((ind + d') % n) := by
  intro fuel
  induction fuel with
  | zero => intro ind j _ h; simp [probe] at h
  | succ fuel ih =>
    intro ind j hind h
    by_cases hstop : Stops key slots k (ind % n)
    · rw [probe_succ_of_stops hind hstop] at h
      cases h
      exact ⟨0, by omega, rfl, hstop, fun d' hd' => by omega⟩
    · rw [probe_succ_of_not_stops hind hstop] at h
      obtain ⟨d, hd, hj, hs, hfirst⟩ := ih (Nat.mod_lt ind hn) h
      refine ⟨d + 1, by omega, by rw [← hj, step_mod], hs, fun d' hd' => ?_⟩
      cases d' with
      | zero => exact hstop
      | succ d' =>
        rw [← step_mod]
        exact hfirst d' (by omega)

theorem probe_ne_none {slots : List (Option ε)} {k : κ} (hn : 0 < n) :
    ∀ {fuel ind d : Nat}, ind ≤ n → d < fuel → Stops key slots k ((ind + d) % n) →
      probe key n slots k fuel ind ≠ none := by
  intro fuel
  induction fuel with
  | zero => intro ind d _ hd; omega
  | succ fuel ih =>
    intro ind d hind hd hstop
    by_cases hhere : Stops key slots k (ind % n)
    · simp [probe_succ_of_stops hind hhere]
    · rw [probe_succ_of_not_stops hind hhere]
      cases d with
      | zero => exact absurd hstop hhere
      | succ d => exact ih (d := d) (Nat.mod_lt ind hn) (by omega) (by rwa [step_mod])

end Walk

/-! ## Searching -/

theorem stops_of_free {slots : List (Option ε)} {k : κ} {j : Nat} (h : slot slots j = none) :
    Stops key slots k j := fun e he => by simp [h] at he

section Search
variable [DecidableEq κ]

theorem search_lt {slots : List (Option ε)} {k : κ} (hn : 0 < n) {j : Nat}
    (h : search key home n slots k = some j) : j < n := by
  obtain ⟨d, _, rfl, _⟩ := probe_eq_some hn (Nat.le_of_lt (Nat.mod_lt _ hn)) h
  exact Nat.mod_lt _ hn

theorem stops_of_search {slots : List (Option ε)} {k : κ} (hn : 0 < n) {j : Nat}
    (h : search key home n slots k = some j) : Stops key slots k j := by
  obtain ⟨d, _, _, hs, _⟩ := probe_eq_some hn (Nat.le_of_lt (Nat.mod_lt _ hn)) h
  exact hs

/-- A stored key is found in its slot. -/
theorem Probed.search_of_mem {slots : List (Option ε)} (h : Probed key home n slots) {i : Nat} {e : ε}
    (hi : slot slots i = some e) : search key home n slots (key e) = some i := by
  obtain ⟨d, hd, hpos, hocc⟩ := h.path i e hi
  have hn : 0 < n := by omega
  have hstop : Stops key slots (key e) ((home (key e) % n + d) % n) := by
    intro e' he'
    rw [hpos, hi] at he'
    rw [Option.some.inj he']
  rw [search, probe_of_first hn (Nat.le_of_lt (Nat.mod_lt _ hn)) hd hstop, hpos]
  intro d' hd' hs
  obtain ⟨e', he'⟩ := Option.ne_none_iff_exists'.mp (hocc d' hd')
  have heq := h.distinct _ i e' e he' hi (hs e' he')
  have hlt := Nat.mod_lt (home (key e)) hn
  rw [← hpos] at heq
  have := Nat.ModEq.add_left_cancel' (home (key e) % n) (show _ ≡ _ [MOD n] from heq)
  rw [Nat.ModEq, Nat.mod_eq_of_lt (by omega), Nat.mod_eq_of_lt hd] at this
  omega

theorem search_of_not_mem {slots : List (Option ε)} {k : κ} (hn : 0 < n)
    (hk : ∀ j e, slot slots j = some e → key e ≠ k) {j : Nat}
    (h : search key home n slots k = some j) : slot slots j = none := by
  cases hj : slot slots j with
  | none => rfl
  | some e => exact absurd (stops_of_search hn h e hj) (hk j e hj)

/-- A search fails exactly in a table where no slot stops it. -/
theorem search_eq_none_iff {slots : List (Option ε)} {k : κ} (hn : 0 < n) :
    search key home n slots k = none ↔ ∀ j < n, ¬ Stops key slots k j := by
  have hlt := Nat.mod_lt (home k) hn
  constructor
  · intro hnone j hj hstop
    have hreach : ∃ d < n, (home k % n + d) % n = j := by
      by_cases hle : home k % n ≤ j
      · exact ⟨j - home k % n, by omega, by rw [Nat.add_sub_cancel' hle, Nat.mod_eq_of_lt hj]⟩
      · exact ⟨n - home k % n + j, by omega, by
          rw [show home k % n + (n - home k % n + j) = j + n by omega, Nat.add_mod_right,
            Nat.mod_eq_of_lt hj]⟩
    obtain ⟨d, hd, hpos⟩ := hreach
    exact probe_ne_none hn (Nat.le_of_lt hlt) hd (by rwa [hpos]) hnone
  · intro hall
    by_contra hsome
    obtain ⟨j, hj⟩ := Option.ne_none_iff_exists'.mp hsome
    exact hall j (search_lt hn hj) (stops_of_search hn hj)

theorem search_ne_none_of_free {slots : List (Option ε)} {k : κ} {j : Nat} (hj : j < n)
    (hfree : slot slots j = none) : search key home n slots k ≠ none := by
  intro hnone
  exact (search_eq_none_iff (by omega)).mp hnone j hj (stops_of_free hfree)

end Search

/-! ## Filling a slot -/

theorem join_set_self {slots : List (Option ε)} {j : Nat} (hj : j < slots.length) (e : ε) :
    slot (slots.set j (some e)) j = some e := by
  simp [slot, hj]

theorem join_set_ne {slots : List (Option ε)} {i j : Nat} (h : j ≠ i) (e : ε) :
    slot (slots.set j (some e)) i = slot slots i := by
  rw [slot, List.getElem?_set_ne h]

theorem join_set_ne_none {slots : List (Option ε)} {i j : Nat} {e : ε}
    (h : slot slots i ≠ none) : slot (slots.set j (some e)) i ≠ none := by
  by_cases hij : j = i
  · subst hij
    have hlt : j < slots.length := by
      by_contra hge
      exact h (by simp [slot, List.getElem?_eq_none (by omega : slots.length ≤ j)])
    rw [join_set_self hlt e]
    exact Option.some_ne_none e
  · rwa [join_set_ne hij]

/-- Filling the free slot a search answers keeps the table searchable. -/
theorem Probed.insert [DecidableEq κ] {slots : List (Option ε)} (h : Probed key home n slots) (hn : 0 < n) {e : ε}
    {j : Nat} (hk : ∀ i e', slot slots i = some e' → key e' ≠ key e)
    (hs : search key home n slots (key e) = some j) : Probed key home n (slots.set j (some e)) := by
  have hj : j < slots.length := h.length_eq ▸ search_lt hn hs
  have hpath := probe_eq_some hn (Nat.le_of_lt (Nat.mod_lt _ hn)) hs
  refine ⟨by simp [h.length_eq], fun i i' e₁ e₂ h₁ h₂ heq => ?_, fun i e₁ h₁ => ?_⟩
  · by_cases hi : j = i <;> by_cases hi' : j = i'
    · omega
    · rw [← hi, join_set_self hj] at h₁
      rw [join_set_ne hi'] at h₂
      cases h₁
      exact absurd heq.symm (hk i' e₂ h₂)
    · rw [← hi', join_set_self hj] at h₂
      rw [join_set_ne hi] at h₁
      cases h₂
      exact absurd heq (hk i e₁ h₁)
    · rw [join_set_ne hi] at h₁
      rw [join_set_ne hi'] at h₂
      exact h.distinct i i' e₁ e₂ h₁ h₂ heq
  · by_cases hi : j = i
    · rw [← hi, join_set_self hj] at h₁
      cases h₁
      obtain ⟨d, hd, hpos, _, hfirst⟩ := hpath
      refine ⟨d, hd, hi ▸ hpos, fun d' hd' hnone => ?_⟩
      refine hfirst d' hd' (stops_of_free ?_)
      by_contra hocc
      exact join_set_ne_none hocc hnone
    · rw [join_set_ne hi] at h₁
      obtain ⟨d, hd, hpos, hocc⟩ := h.path i e₁ h₁
      exact ⟨d, hd, hpos, fun d' hd' => join_set_ne_none (hocc d' hd')⟩

theorem join_replicate_none (m i : Nat) : slot (List.replicate m (none : Option ε)) i = none := by
  rw [slot, List.getElem?_replicate]
  split <;> rfl

theorem probed_replicate (m : Nat) : Probed key home m (List.replicate m none) where
  length_eq := List.length_replicate
  distinct i j e e' hi _ _ := by simp [join_replicate_none] at hi
  path i e hi := by simp [join_replicate_none] at hi

/-! ## The entries -/

/-- The entries of a table, slot by slot. -/
def entries (slots : List (Option ε)) : List ε := slots.filterMap id

theorem mem_entries {slots : List (Option ε)} {e : ε} :
    e ∈ entries slots ↔ ∃ i, slot slots i = some e := by
  simp only [entries, slot, List.mem_filterMap, id_eq, exists_eq_right, Option.join_eq_some_iff]
  exact List.mem_iff_getElem?

theorem entries_eq_range (slots : List (Option ε)) :
    entries slots = (List.range slots.length).filterMap (slot slots) := by
  induction slots with
  | nil => rfl
  | cons x slots ih =>
    rw [List.length_cons, List.range_succ_eq_map, List.filterMap_cons, List.filterMap_map]
    have htail : slot (x :: slots) ∘ Nat.succ = slot slots := by
      funext i
      simp [slot]
    rw [htail, ← ih]
    cases x <;> rfl

theorem entries_set_perm {slots : List (Option ε)} {j : Nat} (e : ε) (hj : j < slots.length)
    (hfree : slot slots j = none) : (entries (slots.set j (some e))).Perm (e :: entries slots) := by
  induction slots generalizing j with
  | nil => simp at hj
  | cons x xs ih =>
    cases j with
    | zero =>
      have hx : x = none := by simpa [slot] using hfree
      simp [entries, hx]
    | succ j =>
      have htail := ih (j := j) (by simpa using hj) (by simpa [slot] using hfree)
      cases x with
      | none => simpa [entries] using htail
      | some y =>
        have hswap : (y :: entries (xs.set j (some e))).Perm (e :: y :: entries xs) :=
          (htail.cons y).trans (List.Perm.swap e y _)
        simpa [entries] using hswap

theorem Probed.entries_nodup {slots : List (Option ε)} (h : Probed key home n slots) :
    ((entries slots).map key).Nodup := by
  unfold entries
  rw [List.map_filterMap, List.nodup_iff_pairwise_ne, List.pairwise_filterMap, List.pairwise_iff_getElem]
  intro i j hi hj hij k hk k' hk' heq
  obtain ⟨e, he, rfl⟩ := Option.map_eq_some_iff.mp hk
  obtain ⟨e', he', rfl⟩ := Option.map_eq_some_iff.mp hk'
  have := h.distinct i j e e' (by simpa [slot, hi] using he) (by simpa [slot, hj] using he') heq
  omega

/-- A table with fewer entries than slots has a free slot. -/
theorem exists_free {slots : List (Option ε)} (h : (entries slots).length < slots.length) :
    ∃ j < slots.length, slot slots j = none := by
  by_contra hfull
  push Not at hfull
  have hall : ∀ x ∈ slots, x.isSome := by
    intro x hx
    obtain ⟨i, hi, rfl⟩ := List.getElem_of_mem hx
    have := hfull i hi
    simpa [slot, List.getElem?_eq_getElem hi, Option.isSome_iff_ne_none] using this
  have : (entries slots).length = slots.length := by
    unfold entries
    rw [List.length_filterMap_eq_countP, List.countP_eq_length]
    simpa using hall
  omega

end OpenAddressing
