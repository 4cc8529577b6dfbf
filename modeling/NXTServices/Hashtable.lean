import NXTServices.Lib.Probing
import NXTServices.Text
import Mathlib.Data.Finset.Card

/-!
# `struct hashtable` of `utils/jl777hash.h`

* `Entry`, `Hashtable` : an item with its address, and the slots; the name, the offsets and the two
  search counters are left out, since only messages read them;
* `searchHashtable`, `resizeHashtable`, `addHashtable`, `hashtableGatherModified` : the operations;
* `Holds` : the table holds a list of distinct keys, the item of a key having its index as address;
* `addHashtable_cases`, `addHashtable_spec` : how a call ends, and that it adds one key to that list;
* `addAll_finiteMap` : a table that only grew by calls with valid keys is a finite map;
* `Table` : the structures of a table by key, which is how the rest of the program sees it;
* `Table.add_refines` : `Table.add` is what `addHashtable` does to them.
-/

namespace NXTServices

namespace Hashtable

/-- An item of the table; `ptr` is the address `calloc` gave it. -/
structure Entry where
  ptr : Nat
  key : Text
  modified : BitVec 64 := 0
deriving DecidableEq

end Hashtable

open Hashtable OpenAddressing

/-- `struct hashtable`. No slots stand for the null `hashtable`, and `next` is the next address. -/
structure Hashtable where
  hashtable : List (Option Entry)
  hashsize : Nat
  numitems : Nat := 0
  keysize : Nat
  next : Nat := 0

namespace Hashtable

def calcDecimalhash (key : Text) : BitVec 64 :=
  (key.foldl (fun (hashval, a) c =>
    (if '0' ≤ c ∧ c ≤ '9' then hashval * a + BitVec.ofNat 64 (c.toNat - '0'.toNat) else hashval,
      a * 378551)) ((0 : BitVec 64), (63689 : BitVec 64))).1

def hashtableCreate (hashsize keysize : Nat) : Hashtable :=
  { hashtable := List.replicate hashsize none, hashsize := hashsize, keysize := keysize }

/-- `none` is `HASHSEARCH_ERROR`. -/
def searchHashtable (hp : Hashtable) (key : Text) : Option Nat :=
  search Entry.key (fun k => (calcDecimalhash k).toNat) hp.hashsize hp.hashtable key

/-- The number of gathered items and the items. -/
def hashtableGatherModified (hp : Hashtable) (forceflag : Bool) : Nat × List Entry :=
  let chosen (ptr : Entry) : Bool := forceflag || decide (ptr.modified ≠ 0)
  ((entries hp.hashtable).countP chosen, (entries hp.hashtable).filter chosen)

/-- The body of the loop that moves the items of the old slots. -/
def moveItem (newhp : Hashtable) (ptr : Entry) : Hashtable :=
  match searchHashtable newhp ptr.key with
  | none => newhp
  | some newind =>
    if slot newhp.hashtable newind = none then
      { newhp with
        hashtable := newhp.hashtable.set newind (some ptr)
        numitems := newhp.numitems + 1 }
    else newhp

def resizeHashtable (hp : Hashtable) (newsize : Nat) : Hashtable :=
  (entries hp.hashtable).foldl moveItem
    { hp with hashsize := newsize, numitems := 0, hashtable := List.replicate newsize none }

/-- The key a call really uses. -/
def storeKey (keysize : Nat) (key : Text) : Text :=
  if key = [] ∨ keysize ≤ key.length then "123456".toList else key

/-- `HASHTABLE_FULL` is read as the exact ratio 666/1000, `hashsize * 3` wraps at 64 bits. -/
def prepareHashtable (hp : Hashtable) : Hashtable :=
  if hp.hashtable = [] then { hp with hashtable := List.replicate hp.hashsize none }
  else if 666 * hp.hashsize < 1000 * hp.numitems then resizeHashtable hp (hp.hashsize * 3 % 2 ^ 64)
  else hp

structure Added where
  result : Option Entry
  createdflag : Nat
  hp : Hashtable

def addHashtable (hp : Hashtable) (key : Text) : Added :=
  let key := storeKey hp.keysize key
  let hp := prepareHashtable hp
  match searchHashtable hp key with
  | none => ⟨none, 0, hp⟩
  | some ind =>
    match slot hp.hashtable ind with
    | some ptr => ⟨some ptr, 0, hp⟩
    | none =>
      let ptr : Entry := { ptr := hp.next, key := key }
      ⟨some ptr, 1, { hp with
        hashtable := hp.hashtable.set ind (some ptr)
        numitems := hp.numitems + 1
        next := hp.next + 1 }⟩

/-- The table after one call for each key. -/
def addAll (hp : Hashtable) (keys : List Text) : Hashtable :=
  keys.foldl (fun hp key => (addHashtable hp key).hp) hp

@[simp] theorem addAll_append_singleton (hp : Hashtable) (keys : List Text) (key : Text) :
    addAll hp (keys ++ [key]) = (addHashtable (addAll hp keys) key).hp := by
  simp [addAll]

/-! ## The map

What a table stands for is a list of distinct keys in the order of their first call. -/

/-- The keys of a map after one more call. -/
def addKey (keys : List Text) (key : Text) : List Text :=
  if key ∈ keys then keys else keys ++ [key]

/-- The distinct keys of some calls. -/
def distinctKeys (keys : List Text) : List Text := keys.foldl addKey []

/-- The item of a key. -/
def itemOf (keys : List Text) (key : Text) : Entry := { ptr := keys.idxOf key, key := key }

@[simp] theorem distinctKeys_append_singleton (keys : List Text) (key : Text) :
    distinctKeys (keys ++ [key]) = addKey (distinctKeys keys) key := by
  simp [distinctKeys]

theorem addKey_nodup {keys : List Text} (h : keys.Nodup) (key : Text) : (addKey keys key).Nodup := by
  unfold addKey
  split
  · exact h
  · next hk => simpa [List.nodup_append] using ⟨h, fun a ha heq => hk (heq ▸ ha)⟩

@[simp] theorem mem_addKey {keys : List Text} {key k : Text} :
    k ∈ addKey keys key ↔ k ∈ keys ∨ k = key := by
  unfold addKey
  split
  · next h => exact ⟨.inl, fun hk => hk.elim id fun heq => heq ▸ h⟩
  · simp

theorem prefix_addKey (keys : List Text) (key : Text) : keys <+: addKey keys key := by
  unfold addKey
  split
  · exact List.prefix_rfl
  · exact List.prefix_append keys [key]

theorem distinctKeys_nodup (keys : List Text) : (distinctKeys keys).Nodup := by
  induction keys using List.reverseRecOn with
  | nil => simp [distinctKeys]
  | append_singleton keys key ih => simpa using addKey_nodup ih key

@[simp] theorem mem_distinctKeys {keys : List Text} {k : Text} : k ∈ distinctKeys keys ↔ k ∈ keys := by
  induction keys using List.reverseRecOn with
  | nil => simp [distinctKeys]
  | append_singleton keys key ih => simp [ih]

theorem prefix_distinctKeys {p q : List Text} (h : p <+: q) : distinctKeys p <+: distinctKeys q := by
  induction q using List.reverseRecOn with
  | nil => rw [List.prefix_nil.mp h]
  | append_singleton q key ih =>
    rcases List.prefix_concat_iff.mp h with rfl | hp
    · exact List.prefix_rfl
    · rw [distinctKeys_append_singleton]
      exact (ih hp).trans (prefix_addKey _ key)

theorem length_distinctKeys (keys : List Text) : (distinctKeys keys).length = keys.toFinset.card := by
  rw [← List.toFinset_card_of_nodup (distinctKeys_nodup keys)]
  congr 1
  ext k
  simp

theorem itemOf_prefix_eq {p q : List Text} (h : p <+: q) {key : Text} (hk : key ∈ p) :
    itemOf q key = itemOf p key := by
  obtain ⟨r, rfl⟩ := h
  simp [itemOf, List.idxOf_append_of_mem hk]

/-! ## What a table holds -/

/-- The table is searchable and holds the items of some distinct keys. -/
structure Holds (hp : Hashtable) (keys : List Text) : Prop where
  nodup : keys.Nodup
  hashsize_pos : 0 < hp.hashsize
  probed : Probed Entry.key (fun k => (calcDecimalhash k).toNat) hp.hashsize hp.hashtable
  numitems_eq : hp.numitems = (entries hp.hashtable).length
  items : (entries hp.hashtable).Perm (keys.map (itemOf keys))
  next_eq : hp.next = keys.length

variable {hp : Hashtable} {keys : List Text}

theorem Holds.numitems_eq_length (h : Holds hp keys) : hp.numitems = keys.length := by
  rw [h.numitems_eq, h.items.length_eq, List.length_map]

theorem Holds.numitems_le (h : Holds hp keys) : hp.numitems ≤ hp.hashsize := by
  rw [h.numitems_eq, ← h.probed.length_eq]
  exact List.length_filterMap_le id hp.hashtable

theorem Holds.mem_slots (h : Holds hp keys) {e : Entry} :
    (∃ i, slot hp.hashtable i = some e) ↔ ∃ k ∈ keys, itemOf keys k = e := by
  rw [← mem_entries, h.items.mem_iff, List.mem_map]

theorem Holds.of_slot (h : Holds hp keys) {i : Nat} {e : Entry} (hi : slot hp.hashtable i = some e) :
    e.key ∈ keys ∧ e = itemOf keys e.key := by
  obtain ⟨k, hk, rfl⟩ := h.mem_slots.mp ⟨i, hi⟩
  exact ⟨hk, rfl⟩

theorem Holds.search_of_mem (h : Holds hp keys) {key : Text} (hk : key ∈ keys) :
    ∃ ind, searchHashtable hp key = some ind ∧ slot hp.hashtable ind = some (itemOf keys key) := by
  obtain ⟨i, hi⟩ := h.mem_slots.mpr ⟨key, hk, rfl⟩
  exact ⟨i, h.probed.search_of_mem hi, hi⟩

theorem Holds.search_of_not_mem (h : Holds hp keys) {key : Text} (hk : key ∉ keys) {ind : Nat}
    (hs : searchHashtable hp key = some ind) : slot hp.hashtable ind = none := by
  refine OpenAddressing.search_of_not_mem h.hashsize_pos (fun j e he heq => hk ?_) hs
  rw [← heq]
  exact (h.of_slot he).1

theorem Holds.search_ne_none (h : Holds hp keys) (key : Text) (hfree : hp.numitems < hp.hashsize) :
    searchHashtable hp key ≠ none := by
  rw [h.numitems_eq, ← h.probed.length_eq] at hfree
  obtain ⟨j, hj, hnone⟩ := exists_free hfree
  exact search_ne_none_of_free (h.probed.length_eq ▸ hj) hnone

theorem holds_create {hashsize : Nat} (keysize : Nat) (h : 0 < hashsize) :
    Holds (hashtableCreate hashsize keysize) [] where
  nodup := List.nodup_nil
  hashsize_pos := h
  probed := probed_replicate hashsize
  numitems_eq := by simp [hashtableCreate, entries]
  items := by simp [hashtableCreate, entries]
  next_eq := rfl

/-! ## Resizing -/

/-- A table on the way: searchable, with the items moved so far. -/
structure Moved (hp : Hashtable) (moved : List Entry) : Prop where
  hashsize_pos : 0 < hp.hashsize
  probed : Probed Entry.key (fun k => (calcDecimalhash k).toNat) hp.hashsize hp.hashtable
  numitems_eq : hp.numitems = moved.length
  items : (entries hp.hashtable).Perm moved

/-- The fields a move leaves alone. -/
structure SameFrame (hp hp' : Hashtable) : Prop where
  hashsize : hp'.hashsize = hp.hashsize
  keysize : hp'.keysize = hp.keysize
  next : hp'.next = hp.next

theorem SameFrame.refl (hp : Hashtable) : SameFrame hp hp := ⟨rfl, rfl, rfl⟩

theorem SameFrame.trans {a b c : Hashtable} (h : SameFrame a b) (h' : SameFrame b c) : SameFrame a c :=
  ⟨h'.hashsize.trans h.hashsize, h'.keysize.trans h.keysize, h'.next.trans h.next⟩

theorem Moved.search_free {moved : List Entry} (h : Moved hp moved) {key : Text}
    (hfree : moved.length < hp.hashsize) (hnew : ∀ e ∈ moved, e.key ≠ key) :
    ∃ newind < hp.hashsize, searchHashtable hp key = some newind ∧ slot hp.hashtable newind = none := by
  have hcount : (entries hp.hashtable).length < hp.hashtable.length := by
    rwa [h.items.length_eq, h.probed.length_eq]
  obtain ⟨j, hj, hnone⟩ := exists_free hcount
  have hsome : searchHashtable hp key ≠ none := search_ne_none_of_free (h.probed.length_eq ▸ hj) hnone
  obtain ⟨newind, hind⟩ := Option.ne_none_iff_exists'.mp hsome
  have hother : ∀ i e, slot hp.hashtable i = some e → e.key ≠ key := fun i e he =>
    hnew e (h.items.mem_iff.mp (mem_entries.mpr ⟨i, he⟩))
  exact ⟨newind, search_lt h.hashsize_pos hind, hind,
    OpenAddressing.search_of_not_mem h.hashsize_pos hother hind⟩

theorem Moved.moveItem {moved : List Entry} (h : Moved hp moved) {ptr : Entry}
    (hfree : moved.length < hp.hashsize) (hnew : ∀ e ∈ moved, e.key ≠ ptr.key) :
    Moved (hp.moveItem ptr) (ptr :: moved) ∧ SameFrame hp (hp.moveItem ptr) := by
  obtain ⟨newind, hlt, hind, hslot⟩ := h.search_free hfree hnew
  have hother : ∀ i e, slot hp.hashtable i = some e → e.key ≠ ptr.key := fun i e he =>
    hnew e (h.items.mem_iff.mp (mem_entries.mpr ⟨i, he⟩))
  have hperm := entries_set_perm ptr (h.probed.length_eq ▸ hlt) hslot
  unfold Hashtable.moveItem
  simp only [hind, hslot, if_true]
  exact ⟨⟨h.hashsize_pos, h.probed.insert h.hashsize_pos hother hind, by simp [h.numitems_eq],
    hperm.trans (h.items.cons ptr)⟩, rfl, rfl, rfl⟩

theorem Moved.foldl {moved : List Entry} (items : List Entry) (h : Moved hp moved)
    (hfree : moved.length + items.length ≤ hp.hashsize) (hnew : ((items ++ moved).map Entry.key).Nodup) :
    Moved (items.foldl Hashtable.moveItem hp) (items.reverse ++ moved) ∧
      SameFrame hp (items.foldl Hashtable.moveItem hp) := by
  induction items generalizing hp moved with
  | nil => exact ⟨h, .refl hp⟩
  | cons ptr items ih =>
    simp only [List.length_cons] at hfree
    simp only [List.cons_append, List.map_cons, List.map_append, List.nodup_cons, List.mem_append,
      List.mem_map, not_or, not_exists, not_and] at hnew
    obtain ⟨⟨hhere, hmoved⟩, hrest⟩ := hnew
    obtain ⟨hstep, hsame⟩ := h.moveItem (by omega) hmoved
    obtain ⟨hrun, hframe⟩ := ih hstep (by rw [hsame.hashsize, List.length_cons]; omega) (by
      rw [List.map_append, List.map_cons, List.nodup_middle, List.nodup_cons, List.mem_append, not_or]
      exact ⟨⟨by simpa using hhere, by simpa using hmoved⟩, hrest⟩)
    rw [List.foldl_cons, List.reverse_cons, List.append_assoc, List.singleton_append]
    exact ⟨hrun, hsame.trans hframe⟩

/-- The table a resize starts from. -/
abbrev blank (hp : Hashtable) (newsize : Nat) : Hashtable :=
  { hp with hashsize := newsize, numitems := 0, hashtable := List.replicate newsize none }

theorem moved_blank (hp : Hashtable) {newsize : Nat} (hpos : 0 < newsize) : Moved (blank hp newsize) [] :=
  ⟨hpos, probed_replicate newsize, rfl, by simp [entries]⟩

theorem resize_moved {newsize : Nat} (hpos : 0 < newsize) (hle : (entries hp.hashtable).length ≤ newsize)
    (hdistinct : ((entries hp.hashtable).map Entry.key).Nodup) :
    Moved (resizeHashtable hp newsize) (entries hp.hashtable).reverse ∧
      SameFrame (blank hp newsize) (resizeHashtable hp newsize) := by
  have hrun := (moved_blank hp hpos).foldl (entries hp.hashtable)
    (by rw [List.length_nil, Nat.zero_add]; exact hle) (by rwa [List.append_nil])
  rwa [List.append_nil] at hrun

theorem Holds.resize (h : Holds hp keys) {newsize : Nat} (hsize : hp.hashsize ≤ newsize) :
    Holds (resizeHashtable hp newsize) keys ∧ (resizeHashtable hp newsize).hashsize = newsize ∧
      (resizeHashtable hp newsize).keysize = hp.keysize := by
  have hpos : 0 < newsize := by have := h.hashsize_pos; omega
  have hle := h.numitems_le
  rw [h.numitems_eq] at hle
  obtain ⟨hmoved, hframe⟩ := resize_moved hpos (hle.trans hsize) h.probed.entries_nodup
  refine ⟨⟨h.nodup, ?_, hmoved.probed, ?_, ?_, ?_⟩, hframe.hashsize, hframe.keysize⟩
  · exact hmoved.hashsize_pos
  · exact hmoved.numitems_eq.trans hmoved.items.length_eq.symm
  · exact hmoved.items.trans ((List.reverse_perm _).trans h.items)
  · exact hframe.next.trans h.next_eq

/-! ## Adding -/

theorem prepareHashtable_cases (hfits : hp.hashsize * 3 < 2 ^ 64) :
    hp.hashtable = [] ∧ prepareHashtable hp = { hp with hashtable := List.replicate hp.hashsize none } ∨
      hp.hashtable ≠ [] ∧ 666 * hp.hashsize < 1000 * hp.numitems ∧
        prepareHashtable hp = resizeHashtable hp (hp.hashsize * 3) ∨
      hp.hashtable ≠ [] ∧ 1000 * hp.numitems ≤ 666 * hp.hashsize ∧ prepareHashtable hp = hp := by
  unfold prepareHashtable
  rw [Nat.mod_eq_of_lt hfits]
  by_cases hnull : hp.hashtable = []
  · exact .inl ⟨hnull, if_pos hnull⟩
  · rw [if_neg hnull]
    by_cases hmany : 666 * hp.hashsize < 1000 * hp.numitems
    · exact .inr (.inl ⟨hnull, hmany, if_pos hmany⟩)
    · exact .inr (.inr ⟨hnull, by omega, if_neg hmany⟩)

/-- A call finds the table full, finds the entry or makes it. -/
theorem addHashtable_cases (hp : Hashtable) (key : Text) :
    searchHashtable (prepareHashtable hp) (storeKey hp.keysize key) = none ∧
        addHashtable hp key = ⟨none, 0, prepareHashtable hp⟩ ∨
      ∃ ind, searchHashtable (prepareHashtable hp) (storeKey hp.keysize key) = some ind ∧
        ((∃ ptr, slot (prepareHashtable hp).hashtable ind = some ptr ∧
            addHashtable hp key = ⟨some ptr, 0, prepareHashtable hp⟩) ∨
          slot (prepareHashtable hp).hashtable ind = none ∧
            addHashtable hp key =
              ⟨some { ptr := (prepareHashtable hp).next, key := storeKey hp.keysize key }, 1,
                { prepareHashtable hp with
                  hashtable := (prepareHashtable hp).hashtable.set ind
                    (some { ptr := (prepareHashtable hp).next, key := storeKey hp.keysize key })
                  numitems := (prepareHashtable hp).numitems + 1
                  next := (prepareHashtable hp).next + 1 }⟩) := by
  cases hs : searchHashtable (prepareHashtable hp) (storeKey hp.keysize key) with
  | none => exact .inl ⟨rfl, by simp only [addHashtable, hs]⟩
  | some ind =>
    refine .inr ⟨ind, rfl, ?_⟩
    cases hslot : slot (prepareHashtable hp).hashtable ind with
    | some ptr => exact .inl ⟨ptr, rfl, by simp only [addHashtable, hs, hslot]⟩
    | none => exact .inr ⟨rfl, by simp only [addHashtable, hs, hslot]⟩

/-- Before a search of `addHashtable` the table has a free slot. -/
theorem Holds.prepare (h : Holds hp keys) (hfits : hp.hashsize * 3 < 2 ^ 64) :
    Holds (prepareHashtable hp) keys ∧ (prepareHashtable hp).keysize = hp.keysize ∧
      (prepareHashtable hp).numitems < (prepareHashtable hp).hashsize := by
  have hpos := h.hashsize_pos
  have hnull : hp.hashtable ≠ [] := by
    intro hnil
    have := h.probed.length_eq
    simp [hnil] at this
    omega
  obtain ⟨hnil, -⟩ | ⟨-, -, heq⟩ | ⟨-, hfew, heq⟩ := prepareHashtable_cases hfits
  · exact absurd hnil hnull
  · rw [heq]
    obtain ⟨hholds, hsize, hkey⟩ := h.resize (show hp.hashsize ≤ hp.hashsize * 3 by omega)
    refine ⟨hholds, hkey, ?_⟩
    have hle := h.numitems_le
    have := h.numitems_eq_length
    rw [hholds.numitems_eq_length, hsize]
    omega
  · rw [heq]
    exact ⟨h, rfl, by omega⟩

theorem storeKey_of_valid {keysize : Nat} {key : Text} (h : key ≠ []) (hlen : key.length < keysize) :
    storeKey keysize key = key := by
  unfold storeKey
  rw [if_neg (by simp [h]; omega)]

theorem itemOf_map_addKey {keys : List Text} {key : Text} (hk : key ∉ keys) :
    (keys ++ [key]).map (itemOf (keys ++ [key])) =
      keys.map (itemOf keys) ++ [{ ptr := keys.length, key := key }] := by
  rw [List.map_append, List.map_singleton]
  congr 1
  · exact List.map_congr_left fun k hmem => itemOf_prefix_eq (List.prefix_append _ _) hmem
  · simp [itemOf, List.idxOf_append_of_notMem hk]

/-- A new key in the slot its search answered. -/
theorem Holds.fill (h : Holds hp keys) {key : Text} (hk : key ∉ keys) {ind : Nat}
    (hind : searchHashtable hp key = some ind) :
    Holds { hp with
      hashtable := hp.hashtable.set ind (some { ptr := hp.next, key := key })
      numitems := hp.numitems + 1
      next := hp.next + 1 } (keys ++ [key]) := by
  have hslot := h.search_of_not_mem hk hind
  have hlt : ind < hp.hashtable.length := h.probed.length_eq ▸ search_lt h.hashsize_pos hind
  have hperm := entries_set_perm { ptr := hp.next, key := key } hlt hslot
  have hother : ∀ i e, slot hp.hashtable i = some e → e.key ≠ key :=
    fun i e he heq => hk (heq ▸ (h.of_slot he).1)
  have hnodup := addKey_nodup h.nodup key
  rw [addKey, if_neg hk] at hnodup
  refine ⟨hnodup, h.hashsize_pos, ?_, ?_, ?_, ?_⟩
  · exact h.probed.insert h.hashsize_pos (e := ⟨_, key, 0⟩) hother hind
  · rw [hperm.length_eq, List.length_cons, h.numitems_eq]
  · rw [itemOf_map_addKey hk, ← h.next_eq]
    exact hperm.trans ((h.items.cons _).trans (List.perm_append_singleton _ _).symm)
  · simp [h.next_eq]

/-- A call with a valid key adds the key to the map and answers its item. -/
theorem addHashtable_spec (h : Holds hp keys) (hfits : hp.hashsize * 3 < 2 ^ 64) {key : Text}
    (hne : key ≠ []) (hlen : key.length < hp.keysize) :
    Holds (addHashtable hp key).hp (addKey keys key) ∧
      (addHashtable hp key).hp.keysize = hp.keysize ∧
      (addHashtable hp key).result = some (itemOf (addKey keys key) key) ∧
      (addHashtable hp key).createdflag = if key ∈ keys then 0 else 1 := by
  obtain ⟨hprep, hkeysize, hfree⟩ := h.prepare hfits
  have hcases := addHashtable_cases hp key
  rw [storeKey_of_valid hne hlen] at hcases
  obtain ⟨hnone, -⟩ | ⟨ind, hind, hcases⟩ := hcases
  · exact absurd hnone (hprep.search_ne_none key hfree)
  by_cases hk : key ∈ keys
  · obtain ⟨ind', hind', hthere⟩ := hprep.search_of_mem hk
    obtain rfl : ind = ind' := Option.some.inj (hind.symm.trans hind')
    have hsame : addKey keys key = keys := if_pos hk
    obtain ⟨ptr, hslot, hadd⟩ | ⟨hslot, -⟩ := hcases <;> rw [hthere] at hslot
    · rw [hadd, hsame, if_pos hk, ← Option.some.inj hslot]
      exact ⟨hprep, hkeysize, rfl, rfl⟩
    · cases hslot
  · have hkeys : addKey keys key = keys ++ [key] := if_neg hk
    obtain ⟨ptr, hslot, -⟩ | ⟨-, hadd⟩ := hcases
    · rw [hprep.search_of_not_mem hk hind] at hslot
      cases hslot
    · rw [hadd, hkeys, if_neg hk]
      refine ⟨hprep.fill hk hind, hkeysize, ?_, rfl⟩
      simp [itemOf, List.idxOf_append_of_notMem hk, hprep.next_eq]

/-! ## Runs of calls -/

/-- A non-empty key that fits the field it is copied to. -/
def ValidKey (keysize : Nat) (key : Text) : Prop := key ≠ [] ∧ key.length < keysize
deriving Decidable

/-- No call of the run has to triple a size beyond 64 bits. -/
def Fits (hp : Hashtable) (keys : List Text) : Prop :=
  ∀ p key, p ++ [key] <+: keys → (addAll hp p).hashsize * 3 < 2 ^ 64

theorem fits_of_take {hp : Hashtable} {keys : List Text}
    (h : ∀ n < keys.length, (addAll hp (keys.take n)).hashsize * 3 < 2 ^ 64) : Fits hp keys := by
  intro p key hp
  have hlen := hp.length_le
  rw [List.length_append, List.length_singleton] at hlen
  rw [List.prefix_iff_eq_take.mp ((List.prefix_append p [key]).trans hp)]
  exact h _ (by omega)

/-- What a run of calls on a table owes a finite map. -/
structure FiniteMap (hp : Hashtable) (keys : List Text) : Prop where
  answered : ∀ p key, p ++ [key] <+: keys →
    ∃ e, (addHashtable (addAll hp p) key).result = some e ∧ e.key = key
  created : ∀ p key, p ++ [key] <+: keys →
    (addHashtable (addAll hp p) key).createdflag = if key ∈ p then 0 else 1
  same_iff : ∀ p key q key' e e', p ++ [key] <+: keys → q ++ [key'] <+: keys →
    (addHashtable (addAll hp p) key).result = some e →
    (addHashtable (addAll hp q) key').result = some e' → (e.ptr = e'.ptr ↔ key = key')
  found : ∀ p key q e, p ++ [key] <+: q → q <+: keys →
    (addHashtable (addAll hp p) key).result = some e →
    ∃ ind, searchHashtable (addAll hp q) key = some ind ∧ slot (addAll hp q).hashtable ind = some e
  absent : ∀ p key ind, p <+: keys → key ∉ p → searchHashtable (addAll hp p) key = some ind →
    ind < (addAll hp p).hashsize ∧ slot (addAll hp p).hashtable ind = none
  numitems : ∀ p, p <+: keys → (addAll hp p).numitems = p.toFinset.card
  gathered : ∀ p, p <+: keys →
    (hashtableGatherModified (addAll hp p) true).2.Nodup ∧
      (hashtableGatherModified (addAll hp p) true).1 = (hashtableGatherModified (addAll hp p) true).2.length ∧
      ∀ e, e ∈ (hashtableGatherModified (addAll hp p) true).2 ↔
        ∃ q key, q ++ [key] <+: p ∧ (addHashtable (addAll hp q) key).result = some e

section Run
variable {hashsize keysize : Nat} {keys : List Text}

theorem addAll_holds (hsize : 0 < hashsize) (hkeys : ∀ key ∈ keys, ValidKey keysize key)
    (hfits : Fits (hashtableCreate hashsize keysize) keys) :
    Holds (addAll (hashtableCreate hashsize keysize) keys) (distinctKeys keys) ∧
      (addAll (hashtableCreate hashsize keysize) keys).keysize = keysize := by
  induction keys using List.reverseRecOn with
  | nil => exact ⟨holds_create keysize hsize, rfl⟩
  | append_singleton keys key ih =>
    obtain ⟨hholds, hkey⟩ := ih (fun k hk => hkeys k (by simp [hk]))
      fun p k hp => hfits p k (hp.trans (List.prefix_append _ _))
    obtain ⟨hne, hlen⟩ := hkeys key (by simp)
    obtain ⟨hadd, hsame, _⟩ := addHashtable_spec hholds (hfits keys key List.prefix_rfl) hne (by rwa [hkey])
    rw [addAll_append_singleton, distinctKeys_append_singleton]
    exact ⟨hadd, hsame.trans hkey⟩

theorem addAll_result (hsize : 0 < hashsize) (hkeys : ∀ key ∈ keys, ValidKey keysize key)
    (hfits : Fits (hashtableCreate hashsize keysize) keys) {p : List Text} {key : Text}
    (hp : p ++ [key] <+: keys) :
    (addHashtable (addAll (hashtableCreate hashsize keysize) p) key).result =
        some (itemOf (distinctKeys (p ++ [key])) key) ∧
      (addHashtable (addAll (hashtableCreate hashsize keysize) p) key).createdflag =
        if key ∈ p then 0 else 1 := by
  have hsub := (List.prefix_append p [key]).trans hp
  obtain ⟨hholds, hkey⟩ := addAll_holds hsize (fun k hk => hkeys k (hsub.subset hk))
    fun q k hq => hfits q k (hq.trans hsub)
  obtain ⟨hne, hlen⟩ := hkeys key (hp.subset (by simp))
  obtain ⟨_, _, hres, hflag⟩ := addHashtable_spec hholds (hfits p key hp) hne (by rwa [hkey])
  rw [distinctKeys_append_singleton]
  exact ⟨hres, by simpa using hflag⟩

theorem itemOf_inj {keys : List Text} {k k' : Text} (h : k ∈ keys) :
    (itemOf keys k).ptr = (itemOf keys k').ptr ↔ k = k' :=
  ⟨fun heq => (List.idxOf_inj h).mp heq, fun heq => heq ▸ rfl⟩

/-- **A table is a finite map** of the keys it was given, through every resize. -/
theorem addAll_finiteMap (hsize : 1 ≤ hashsize) (hkeys : ∀ key ∈ keys, ValidKey keysize key)
    (hfits : Fits (hashtableCreate hashsize keysize) keys) :
    FiniteMap (hashtableCreate hashsize keysize) keys := by
  have holds {p : List Text} (hp : p <+: keys) :=
    (addAll_holds hsize (fun k hk => hkeys k (hp.subset hk)) fun q k hq => hfits q k (hq.trans hp)).1
  have answer {p : List Text} {key : Text} (hp : p ++ [key] <+: keys) :=
    addAll_result hsize hkeys hfits hp
  have final {p : List Text} {key : Text} (hp : p ++ [key] <+: keys) {q : List Text} (hq : p ++ [key] <+: q) :
      (addHashtable (addAll (hashtableCreate hashsize keysize) p) key).result =
        some (itemOf (distinctKeys q) key) := by
    rw [(answer hp).1, itemOf_prefix_eq (prefix_distinctKeys hq) (by simp)]
  refine ⟨?_, ?_, ?_, ?_, ?_, ?_, ?_⟩
  · exact fun p key hp => ⟨_, (answer hp).1, rfl⟩
  · exact fun p key hp => (answer hp).2
  · intro p key q key' e e' hp hq he he'
    rw [final hp hp] at he
    rw [final hq hq] at he'
    cases he
    cases he'
    exact itemOf_inj (by simpa using hp.subset (by simp))
  · intro p key q e hpq hq he
    rw [final (hpq.trans hq) hpq] at he
    cases he
    exact (holds hq).search_of_mem (by simpa using hpq.subset (by simp))
  · intro p key ind hp hk hs
    exact ⟨search_lt (holds hp).hashsize_pos hs, (holds hp).search_of_not_mem (by simpa using hk) hs⟩
  · intro p hp
    rw [(holds hp).numitems_eq_length, length_distinctKeys]
  · intro p hp
    simp only [hashtableGatherModified, Bool.true_or, List.filter_true, List.countP_true]
    refine ⟨(holds hp).probed.entries_nodup.of_map, trivial, fun e => ?_⟩
    rw [(holds hp).items.mem_iff, List.mem_map]
    constructor
    · rintro ⟨key, hk, rfl⟩
      obtain ⟨q, r, rfl⟩ := List.append_of_mem (mem_distinctKeys.mp hk)
      have hq : q ++ [key] <+: q ++ key :: r := ⟨r, by simp⟩
      exact ⟨q, key, hq, final (hq.trans hp) hq⟩
    · rintro ⟨q, key, hq, he⟩
      rw [final (hq.trans hp) hq] at he
      exact ⟨key, by simpa using hq.subset (by simp), Option.some.inj he⟩

end Run

/-- A table of one slot that is resized twice. -/
theorem finiteMap_small :
    FiniteMap (hashtableCreate 1 8) ["1".toList, "2".toList, "1".toList, "4".toList] := by
  exact addAll_finiteMap le_rfl (by decide) (fits_of_take (by decide))

/-! ## Tables of structures -/

theorem storeKey_valid {keysize : Nat} (h : 6 < keysize) (key : Text) :
    ValidKey keysize (storeKey keysize key) := by
  unfold storeKey
  split
  · exact ⟨by decide, h⟩
  · next hkey =>
    push Not at hkey
    exact hkey

theorem storeKey_storeKey {keysize : Nat} (h : 6 < keysize) (key : Text) :
    storeKey keysize (storeKey keysize key) = storeKey keysize key :=
  storeKey_of_valid (storeKey_valid h key).1 (storeKey_valid h key).2

theorem addHashtable_storeKey (hkey : 6 < hp.keysize) (key : Text) :
    addHashtable hp (storeKey hp.keysize key) = addHashtable hp key := by
  unfold addHashtable
  rw [storeKey_storeKey hkey]

end Hashtable

/-- The structures of a table by key. -/
abbrev Table (α : Type) := Text → Option α

namespace Table
variable {α : Type}

def empty : Table α := fun _ => none

/-- `createdflag` and the table of a call that asked for a key. -/
structure Found (α : Type) where
  key : Text
  created : Bool
  table : Table α

/-- A call for a key; `blank` is the structure of zeros that `calloc` makes. -/
def add (keysize : Nat) (t : Table α) (key : Text) (blank : α) : Found α where
  key := storeKey keysize key
  created := (t (storeKey keysize key)).isNone
  table := if (t (storeKey keysize key)).isNone then
      Function.update t (storeKey keysize key) (some blank)
    else t

section Add
variable {keysize : Nat} {t : Table α} {key : Text} {blank : α}

@[simp] theorem add_key : (t.add keysize key blank).key = storeKey keysize key := rfl

@[simp] theorem add_created : (t.add keysize key blank).created = (t (storeKey keysize key)).isNone := rfl

theorem add_table_of_some {a : α} (h : t (storeKey keysize key) = some a) :
    (t.add keysize key blank).table = t := by
  simp [add, h]

theorem add_table_of_none (h : t (storeKey keysize key) = none) :
    (t.add keysize key blank).table = Function.update t (storeKey keysize key) (some blank) := by
  simp [add, h]

end Add

/-- A write through the pointer to a structure. -/
def modify (t : Table α) (key : Text) (f : α → α) : Table α := Function.update t key ((t key).map f)

@[simp] theorem modify_self (t : Table α) (key : Text) (f : α → α) : t.modify key f key = (t key).map f := by
  simp [modify]

theorem modify_of_ne (t : Table α) {key k : Text} (f : α → α) (h : k ≠ key) : t.modify key f k = t k := by
  simp [modify, h]

@[simp] theorem isSome_modify (t : Table α) (key : Text) (f : α → α) (k : Text) :
    (t.modify key f k).isSome = (t k).isSome := by
  by_cases hk : k = key
  · subst hk
    simp
  · rw [modify_of_ne _ _ hk]

theorem modify_modify (t : Table α) (key : Text) (f g : α → α) :
    (t.modify key f).modify key g = t.modify key (g ∘ f) := by
  simp [modify]

/-- The keys of the table are the keys of the structures. -/
def Keys (t : Table α) (keys : List Text) : Prop := ∀ key, (t key).isSome ↔ key ∈ keys

theorem keys_add {keysize : Nat} {t : Table α} {keys : List Text} (h : t.Keys keys) (key : Text)
    (blank : α) : (t.add keysize key blank).table.Keys (addKey keys (storeKey keysize key)) := by
  intro k
  rw [mem_addKey]
  cases hkey : t (storeKey keysize key) with
  | some a =>
    rw [add_table_of_some hkey, h k, or_iff_left_of_imp]
    rintro rfl
    exact (h _).mp (by simp [hkey])
  | none =>
    rw [add_table_of_none hkey]
    by_cases hk : k = storeKey keysize key
    · simp [hk]
    · simp [hk, h k]

/-- **A hash table whose items are the keys of the structures stays one**, and a call on it answers
the item of the key that `add` uses, with the same created flag. -/
theorem add_refines {hp : Hashtable} {keys : List Text} (h : Holds hp keys)
    (hfits : hp.hashsize * 3 < 2 ^ 64) (hkey : 6 < hp.keysize) {t : Table α} (ht : t.Keys keys)
    (key : Text) (blank : α) :
    let found := t.add hp.keysize key blank
    ∃ keys', Holds (addHashtable hp key).hp keys' ∧ found.table.Keys keys' ∧
      (addHashtable hp key).result = some (itemOf keys' found.key) ∧
      ((addHashtable hp key).createdflag = 1 ↔ found.created = true) := by
  obtain ⟨hne, hlen⟩ := storeKey_valid hkey key
  obtain ⟨hholds, -, hres, hflag⟩ := addHashtable_spec h hfits hne hlen
  rw [addHashtable_storeKey hkey] at hholds hres hflag
  refine ⟨_, hholds, keys_add ht key blank, hres, ?_⟩
  rw [add_created, Option.isNone_iff_eq_none, ← Option.not_isSome_iff_eq_none, ht, hflag]
  split <;> simp [*]

end Table
end NXTServices
