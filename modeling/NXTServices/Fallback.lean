import NXTServices.Resize

/-!
# The key that `add_hashtable` puts in the place of an invalid one

* `Allocated` : the tables the program can have;
* `OwnEntry` : a call answers no entry but that of its key, and makes no other;
* `ownEntry_iff` : when it does;
* `addHashtable_merges` : invalid keys all lead to one entry;
* `addAll_ownEntry_iff` : the tables of a run, which are never full.
-/

namespace NXTServices.Hashtable
open OpenAddressing

/-- The slots are there or null; they have eight bytes each, so that three times as many can be counted. -/
structure Allocated (hp : Hashtable) : Prop where
  hashsize_pos : 0 < hp.hashsize
  length_eq : hp.hashtable = [] ∨ hp.hashtable.length = hp.hashsize
  fits : hp.hashsize * 3 < 2 ^ 64

def fallbackKey : Text := "123456".toList

/-- No slot is free or has the fallback key, though `numitems` calls for no resize. -/
def Full (hp : Hashtable) : Prop :=
  hp.hashtable ≠ [] ∧ 1000 * hp.numitems ≤ 666 * hp.hashsize ∧
    ∀ j < hp.hashsize, ∃ e, slot hp.hashtable j = some e ∧ e.key ≠ fallbackKey

/-- What an insert owes the key it is asked for. -/
structure OwnEntry (hp : Hashtable) (key : Text) : Prop where
  answer : ∀ e, (addHashtable hp key).result = some e → e.key = key
  created : ∀ e ∈ entries (addHashtable hp key).hp.hashtable, e ∈ entries hp.hashtable ∨ e.key = key

variable {hp : Hashtable} {key : Text}

/-! ## The key used -/

theorem storeKey_of_invalid {keysize : Nat} (h : ¬ ValidKey keysize key) : storeKey keysize key = fallbackKey := by
  apply if_pos
  by_contra hkey
  push Not at hkey
  exact h hkey

theorem storeKey_eq_self_iff {keysize : Nat} :
    storeKey keysize key = key ↔ ValidKey keysize key ∨ key = fallbackKey := by
  by_cases h : ValidKey keysize key
  · simp only [storeKey_of_valid h.1 h.2, h, true_or]
  · simp only [storeKey_of_invalid h, h, false_or]
    exact eq_comm

/-- **Calls with invalid keys are one call.** -/
theorem addHashtable_merges {key' : Text} (h : ¬ ValidKey hp.keysize key) (h' : ¬ ValidKey hp.keysize key') :
    addHashtable hp key = addHashtable hp key' := by
  unfold addHashtable
  rw [storeKey_of_invalid h, storeKey_of_invalid h']

/-! ## Before the search -/

/-- The slots searched are there, and hold no more than before. -/
theorem Allocated.prepare (h : Allocated hp) :
    0 < (prepareHashtable hp).hashsize ∧
      (prepareHashtable hp).hashtable.length = (prepareHashtable hp).hashsize ∧
      entries (prepareHashtable hp).hashtable ⊆ entries hp.hashtable := by
  have hpos := h.hashsize_pos
  obtain ⟨hnull, heq⟩ | ⟨-, -, heq⟩ | ⟨hthere, -, heq⟩ := prepareHashtable_cases h.fits
  · rw [heq]
    refine ⟨hpos, List.length_replicate, ?_⟩
    simp [entries]
  · obtain ⟨hcounted, -, hitems⟩ := resize_counted hp (show 0 < hp.hashsize * 3 by omega)
    rw [heq]
    exact ⟨hcounted.hashsize_pos, hcounted.length_eq, hitems.subset⟩
  · rw [heq]
    exact ⟨hpos, h.length_eq.resolve_left hthere, List.Subset.refl _⟩

theorem Allocated.search_fallback_iff (h : Allocated hp) :
    searchHashtable (prepareHashtable hp) fallbackKey = none ↔ Full hp := by
  have hpos := h.hashsize_pos
  obtain ⟨hnull, heq⟩ | ⟨hthere, hmany, heq⟩ | ⟨hthere, hfew, heq⟩ := prepareHashtable_cases h.fits
  · refine iff_of_false ?_ fun hfull => hfull.1 hnull
    rw [heq]
    exact search_ne_none_of_free hpos (join_replicate_none _ _)
  · refine iff_of_false ?_ fun hfull => by have := hfull.2.1; omega
    -- three times the slots have one that no item takes
    obtain ⟨hcounted, hframe, hitems⟩ := resize_counted hp (show 0 < hp.hashsize * 3 by omega)
    have hsize : (resizeHashtable hp (hp.hashsize * 3)).hashsize = hp.hashsize * 3 := hframe.hashsize
    have hcount : (entries hp.hashtable).length ≤ hp.hashsize := by
      rw [← h.length_eq.resolve_left hthere]
      exact List.length_filterMap_le id hp.hashtable
    have hless : (entries (resizeHashtable hp (hp.hashsize * 3)).hashtable).length <
        (resizeHashtable hp (hp.hashsize * 3)).hashtable.length := by
      rw [hcounted.length_eq, hsize]
      have := hitems.length_le
      omega
    obtain ⟨j, hj, hnone⟩ := exists_free hless
    rw [heq]
    exact search_ne_none_of_free (hcounted.length_eq ▸ hj) hnone
  · rw [heq]
    refine (search_eq_none_iff hpos).trans ?_
    simp only [Full, Stops, hthere, hfew, ne_eq, not_false_eq_true, true_and, not_forall, exists_prop]

/-! ## The call -/

theorem Allocated.answer_key (h : Allocated hp) {e : Entry} (he : (addHashtable hp key).result = some e) :
    e.key = storeKey hp.keysize key := by
  obtain ⟨-, hadd⟩ | ⟨ind, hs, ⟨ptr, hslot, hadd⟩ | ⟨-, hadd⟩⟩ := addHashtable_cases hp key <;> rw [hadd] at he
  · cases he
  · obtain rfl : ptr = e := Option.some.inj he
    exact stops_of_search h.prepare.1 hs ptr hslot
  · rw [← Option.some.inj he]

theorem Allocated.created_key (h : Allocated hp) {e : Entry}
    (he : e ∈ entries (addHashtable hp key).hp.hashtable) :
    e ∈ entries hp.hashtable ∨ e.key = storeKey hp.keysize key := by
  obtain ⟨hpos, hlen, hitems⟩ := h.prepare
  obtain ⟨-, hadd⟩ | ⟨ind, hs, ⟨ptr, -, hadd⟩ | ⟨hfree, hadd⟩⟩ := addHashtable_cases hp key <;> rw [hadd] at he
  · exact .inl (hitems he)
  · exact .inl (hitems he)
  · have hlt : ind < (prepareHashtable hp).hashtable.length := hlen ▸ search_lt hpos hs
    rw [(entries_set_perm _ hlt hfree).mem_iff, List.mem_cons] at he
    obtain rfl | he := he
    · exact .inr rfl
    · exact .inl (hitems he)

theorem OwnEntry.of_storeKey (h : Allocated hp) (hkey : storeKey hp.keysize key = key) : OwnEntry hp key :=
  ⟨fun _ he => (h.answer_key he).trans hkey, fun _ he => (h.created_key he).imp_right fun hk => hk.trans hkey⟩

theorem OwnEntry.of_full (h : Allocated hp) (hkey : ¬ ValidKey hp.keysize key) (hfull : Full hp) :
    OwnEntry hp key := by
  have hnone := h.search_fallback_iff.mpr hfull
  rw [← storeKey_of_invalid hkey] at hnone
  obtain ⟨-, hadd⟩ | ⟨ind, hs, -⟩ := addHashtable_cases hp key
  · refine ⟨fun e he => ?_, fun e he => .inl ?_⟩
    · rw [hadd] at he
      cases he
    · rw [hadd] at he
      exact h.prepare.2.2 he
  · rw [hnone] at hs
    cases hs

/-- An invalid key gets its own entry only by being the fallback key. -/
theorem ownEntry_of_invalid_iff (h : Allocated hp) (hkey : ¬ ValidKey hp.keysize key) :
    OwnEntry hp key ↔ key = fallbackKey ∨ Full hp := by
  constructor
  · intro hown
    by_contra hnot
    push Not at hnot
    obtain ⟨hne, hfull⟩ := hnot
    have hused := storeKey_of_invalid hkey
    obtain ⟨hs, -⟩ | ⟨ind, -, ⟨ptr, -, hadd⟩ | ⟨-, hadd⟩⟩ := addHashtable_cases hp key
    · rw [hused] at hs
      exact hfull (h.search_fallback_iff.mp hs)
    all_goals
      have hres := congrArg Added.result hadd
      have hsame := hown.answer _ hres
      rw [h.answer_key hres, hused] at hsame
      exact hne hsame.symm
  · rintro (hfallback | hfull)
    · exact .of_storeKey h (storeKey_eq_self_iff.mpr (.inr hfallback))
    · exact .of_full h hkey hfull

/-- **An insert answers and makes the entry of its own key exactly** for a valid key, for the fallback
key itself, and where the fallback key finds no slot either. -/
theorem ownEntry_iff (h : Allocated hp) (key : Text) :
    OwnEntry hp key ↔ ValidKey hp.keysize key ∨ key = fallbackKey ∨ Full hp := by
  by_cases hkey : ValidKey hp.keysize key
  · exact iff_of_true (.of_storeKey h (storeKey_eq_self_iff.mpr (.inl hkey))) (.inl hkey)
  · rw [ownEntry_of_invalid_iff h hkey, or_iff_right hkey]

theorem allocated_create {hashsize : Nat} (keysize : Nat) (hpos : 0 < hashsize) (hfits : hashsize * 3 < 2 ^ 64) :
    Allocated (hashtableCreate hashsize keysize) :=
  ⟨hpos, .inr List.length_replicate, hfits⟩

theorem ownEntry_digits : OwnEntry (hashtableCreate 4 16) "17".toList :=
  (ownEntry_iff (allocated_create 16 (by decide) (by decide)) "17".toList).mpr (.inl (by decide))

/-- The empty key gets an entry of another key. -/
theorem emptyKey_not_own : Allocated (hashtableCreate 4 16) ∧ ¬ OwnEntry (hashtableCreate 4 16) [] := by
  refine ⟨allocated_create 16 (by decide) (by decide), fun hown => ?_⟩
  have hkey := hown.answer { ptr := 0, key := fallbackKey } (by decide)
  exact absurd hkey (by decide)

/-! ## Runs of calls -/

theorem Counted.not_full (h : Counted hp) : ¬ Full hp := by
  rintro ⟨-, hfew, hfull⟩
  have hpos := h.hashsize_pos
  have hcount : (entries hp.hashtable).length < hp.hashtable.length := by
    rw [← h.numitems_eq, h.length_eq]
    omega
  obtain ⟨j, hj, hnone⟩ := exists_free hcount
  obtain ⟨e, he, -⟩ := hfull j (h.length_eq ▸ hj)
  rw [hnone] at he
  cases he

theorem Counted.allocated (h : Counted hp) (hfits : hp.hashsize * 3 < 2 ^ 64) : Allocated hp :=
  ⟨h.hashsize_pos, .inr h.length_eq, hfits⟩

theorem Counted.prepare (h : Counted hp) (hfits : hp.hashsize * 3 < 2 ^ 64) : Counted (prepareHashtable hp) := by
  have hpos := h.hashsize_pos
  obtain ⟨hnull, -⟩ | ⟨-, -, heq⟩ | ⟨-, -, heq⟩ := prepareHashtable_cases hfits
  · have := h.length_eq
    rw [hnull, List.length_nil] at this
    omega
  · rw [heq]
    exact (resize_counted hp (by omega)).1
  · rwa [heq]

/-- A call keeps the count, whatever its key. -/
theorem Counted.add (h : Counted hp) (hfits : hp.hashsize * 3 < 2 ^ 64) (key : Text) :
    Counted (addHashtable hp key).hp := by
  have hprep := h.prepare hfits
  obtain ⟨-, hadd⟩ | ⟨ind, hs, ⟨ptr, -, hadd⟩ | ⟨hfree, hadd⟩⟩ := addHashtable_cases hp key <;> rw [hadd]
  · exact hprep
  · exact hprep
  · exact hprep.fill hs hfree _ _

theorem prepareHashtable_keysize (hfits : hp.hashsize * 3 < 2 ^ 64) (hpos : 0 < hp.hashsize) :
    (prepareHashtable hp).keysize = hp.keysize := by
  obtain ⟨-, heq⟩ | ⟨-, -, heq⟩ | ⟨-, -, heq⟩ := prepareHashtable_cases hfits <;> rw [heq]
  exact (resize_counted hp (show 0 < hp.hashsize * 3 by omega)).2.1.keysize

theorem addHashtable_keysize (hfits : hp.hashsize * 3 < 2 ^ 64) (hpos : 0 < hp.hashsize) (key : Text) :
    (addHashtable hp key).hp.keysize = hp.keysize := by
  rw [← prepareHashtable_keysize hfits hpos]
  obtain ⟨-, hadd⟩ | ⟨ind, hs, ⟨ptr, -, hadd⟩ | ⟨hfree, hadd⟩⟩ := addHashtable_cases hp key <;> rw [hadd]

section Run
variable {hashsize keysize : Nat} {keys : List Text}

theorem addAll_counted (hpos : 0 < hashsize) (hfits : Fits (hashtableCreate hashsize keysize) keys) :
    Counted (addAll (hashtableCreate hashsize keysize) keys) ∧
      (addAll (hashtableCreate hashsize keysize) keys).keysize = keysize := by
  induction keys using List.reverseRecOn with
  | nil => exact ⟨⟨hpos, List.length_replicate, by simp [addAll, hashtableCreate, entries]⟩, rfl⟩
  | append_singleton keys key ih =>
    obtain ⟨hcounted, hkeysize⟩ := ih fun p k hp => hfits p k (hp.trans (List.prefix_append _ _))
    have hstep := hfits keys key List.prefix_rfl
    rw [addAll_append_singleton]
    exact ⟨hcounted.add hstep key, (addHashtable_keysize hstep hcounted.hashsize_pos key).trans hkeysize⟩

/-- **After any calls on a new table**, valid or not, the keys that get their own entry are the valid ones
and the fallback key. -/
theorem addAll_ownEntry_iff {key : Text} (hpos : 0 < hashsize)
    (hfits : Fits (hashtableCreate hashsize keysize) (keys ++ [key])) :
    OwnEntry (addAll (hashtableCreate hashsize keysize) keys) key ↔ ValidKey keysize key ∨ key = fallbackKey := by
  obtain ⟨hcounted, hkeysize⟩ := addAll_counted hpos
    fun p k hp => hfits p k (hp.trans (List.prefix_append keys [key]))
  have halloc := hcounted.allocated (hfits keys key List.prefix_rfl)
  by_cases hkey : ValidKey keysize key
  · refine iff_of_true (.of_storeKey halloc ?_) (.inl hkey)
    rw [hkeysize]
    exact storeKey_of_valid hkey.1 hkey.2
  · rw [← hkeysize] at hkey
    rw [ownEntry_of_invalid_iff halloc hkey, or_iff_left hcounted.not_full, ← hkeysize, or_iff_right hkey]

end Run

end NXTServices.Hashtable
