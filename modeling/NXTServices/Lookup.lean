import NXTServices.Hashtable
import NXTServices.Lib.Run

/-!
# Lookups while the table grows: `MTsearch_hashtable` and its callers

`find_coin_txid` and `get_listingid` ask the server for a slot number and then read that slot of the
table themselves, with inserts of other clients in between.

* `Ask`, `Server`, `step` : a lookup between its two steps, and the table behind all of them;
* `Right` : what a lookup owes its client;
* `Undisturbed` : an insert that leaves the slots of the waiting lookups alone;
* `lookups_right` : in a run of such inserts every lookup is right.
-/

namespace NXTServices.Lookup
open Hashtable OpenAddressing

/-- A search request that has been served: its key, the slot that was answered (`none` is
`HASHSEARCH_ERROR`), and whether the key was in the table. -/
structure Ask where
  key : Text
  hashval : Option Nat
  known : Bool

/-- `asked` holds the lookups whose slot has been answered and not yet read, `answers` what the others
have read; `inserted` are the keys of the table. -/
structure Server (ι : Type) where
  hp : Hashtable
  inserted : List Text := []
  asked : ι → Option Ask := fun _ => none
  answers : List (Ask × Option Entry) := []

inductive Event (ι : Type) where
  /-- A request of `MTadd_hashtable` is served. -/
  | insert (key : Text)
  /-- The request of `MTsearch_hashtable` is served. -/
  | search (i : ι) (key : Text)
  /-- `hashtable[hashval]` of the table as it is now. -/
  | read (i : ι)

variable {ι : Type} [DecidableEq ι]

def step (s : Server ι) : Event ι → Option (Server ι)
  | .insert key => some { s with hp := (addHashtable s.hp key).hp, inserted := addKey s.inserted key }
  | .search i key =>
    if (s.asked i).isSome then none
    else
      some { s with
        asked := Function.update s.asked i
          (some { key := key, hashval := searchHashtable s.hp key, known := decide (key ∈ s.inserted) }) }
  | .read i =>
    (s.asked i).map fun a =>
      { s with
        asked := Function.update s.asked i none
        answers := s.answers ++ [(a, a.hashval.bind (slot s.hp.hashtable))] }

/-- A lookup reads null or the entry of its key, and the latter when the key was there before. -/
structure Right (a : Ask) (ptr : Option Entry) : Prop where
  own : ∀ e, ptr = some e → e.key = a.key
  found : a.known → ptr.isSome

/-- `add_hashtable` moves the items to a larger table first. -/
def Resizes (hp : Hashtable) : Prop := 666 * hp.hashsize < 1000 * hp.numitems

instance (hp : Hashtable) : Decidable (Resizes hp) := inferInstanceAs (Decidable (_ < _))

/-- The insert of `key` neither resizes the table nor fills a slot that was answered for another key,
while a lookup waits that has been given a slot. -/
def Undisturbed (s : Server ι) (key : Text) : Prop :=
  ∀ i, ∀ a ∈ s.asked i, ∀ ind ∈ a.hashval,
    ¬ Resizes s.hp ∧ (searchHashtable s.hp key = some ind → slot s.hp.hashtable ind = none → key = a.key)

/-- The inserts are of valid keys, and no size is tripled beyond 64 bits. -/
def Valid (s : Server ι) : Event ι → Prop
  | .insert key => ValidKey s.hp.keysize key ∧ s.hp.hashsize * 3 < 2 ^ 64
  | _ => True

def Quiet (s : Server ι) : Event ι → Prop
  | .insert key => Undisturbed s key
  | _ => True

instance (s : Server ι) : ∀ e, Decidable (Valid s e)
  | .insert _ => inferInstanceAs (Decidable (_ ∧ _))
  | .search .. => .isTrue trivial
  | .read _ => .isTrue trivial

instance [Fintype ι] (s : Server ι) : ∀ e, Decidable (Quiet s e)
  | .insert _ => inferInstanceAs (Decidable (∀ i, ∀ a ∈ s.asked i, ∀ ind ∈ a.hashval, _ ∧ (_ → _ → _)))
  | .search .. => .isTrue trivial
  | .read _ => .isTrue trivial

/-! ## What one insert does to a slot -/

section Insert
variable {hp : Hashtable} {keys : List Text} {key : Text}

theorem prepareHashtable_of_not_resizes (h : Holds hp keys) (hsize : ¬ Resizes hp) : prepareHashtable hp = hp := by
  have hne : hp.hashtable ≠ [] := by
    intro hnil
    have hlen := h.probed.length_eq
    have hpos := h.hashsize_pos
    rw [hnil] at hlen
    simp at hlen
    omega
  unfold prepareHashtable
  rw [if_neg hne]
  exact if_neg hsize

/-- Without a resize an insert writes at most the empty slot that the search for its key ends at. -/
theorem slot_addHashtable (h : Holds hp keys) (hsize : ¬ Resizes hp) (hkey : ValidKey hp.keysize key) (j : Nat) :
    slot (addHashtable hp key).hp.hashtable j = slot hp.hashtable j ∨
      searchHashtable hp key = some j ∧ slot hp.hashtable j = none ∧
        ∃ e, slot (addHashtable hp key).hp.hashtable j = some e ∧ e.key = key := by
  unfold addHashtable
  simp only [storeKey_of_valid hkey.1 hkey.2, prepareHashtable_of_not_resizes h hsize]
  cases hind : searchHashtable hp key with
  | none => exact .inl rfl
  | some ind =>
    dsimp only
    cases hslot : slot hp.hashtable ind with
    | some ptr => exact .inl rfl
    | none =>
      dsimp only
      by_cases hj : j = ind
      · subst hj
        have hlt : j < hp.hashtable.length := h.probed.length_eq ▸ search_lt h.hashsize_pos hind
        exact .inr ⟨rfl, hslot, _, join_set_self hlt _, rfl⟩
      · exact .inl (join_set_ne (Ne.symm hj) _)

end Insert

/-! ## The invariant -/

/-- A waiting lookup would read its own entry or null now, and the former when its key is known. -/
structure Inv (s : Server ι) : Prop where
  holds : Holds s.hp s.inserted
  waiting : ∀ i a, s.asked i = some a → Right a (a.hashval.bind (slot s.hp.hashtable))
  answered : ∀ p ∈ s.answers, Right p.1 p.2

omit [DecidableEq ι] in
/-- The lookup that has just been given its slot. -/
theorem right_search {s : Server ι} (h : Holds s.hp s.inserted) (key : Text) :
    Right ⟨key, searchHashtable s.hp key, decide (key ∈ s.inserted)⟩
      ((searchHashtable s.hp key).bind (slot s.hp.hashtable)) := by
  by_cases hmem : key ∈ s.inserted
  · obtain ⟨ind, hind, hslot⟩ := h.search_of_mem hmem
    rw [hind, Option.bind_some, hslot]
    refine ⟨fun e he => ?_, fun _ => rfl⟩
    obtain rfl := Option.some.inj he
    rfl
  · have hnone : (searchHashtable s.hp key).bind (slot s.hp.hashtable) = none := by
      cases hind : searchHashtable s.hp key with
      | none => rfl
      | some ind => exact h.search_of_not_mem hmem hind
    rw [hnone]
    exact ⟨fun e he => (by cases he), fun hknown => absurd (of_decide_eq_true hknown) hmem⟩

omit [DecidableEq ι] in
/-- A waiting lookup after an insert that leaves its slot alone. -/
theorem right_insert {s : Server ι} {key : Text} (h : Holds s.hp s.inserted) (hkey : ValidKey s.hp.keysize key)
    (hquiet : Undisturbed s key) {i : ι} {a : Ask} (ha : s.asked i = some a)
    (hright : Right a (a.hashval.bind (slot s.hp.hashtable))) :
    Right a (a.hashval.bind (slot (addHashtable s.hp key).hp.hashtable)) := by
  cases hind : a.hashval with
  | none => rwa [hind] at hright
  | some ind =>
    rw [hind, Option.bind_some] at hright
    obtain ⟨hsize, hfill⟩ := hquiet i a ha ind hind
    rw [Option.bind_some]
    rcases slot_addHashtable h hsize hkey ind with heq | ⟨hsearch, hnone, e, he, hown⟩
    · rwa [heq]
    · rw [he]
      refine ⟨fun e' he' => ?_, fun _ => rfl⟩
      obtain rfl := Option.some.inj he'
      rw [hown, hfill hsearch hnone]

theorem step_inv {s s' : Server ι} {e : Event ι} (hvalid : Valid s e ∧ Quiet s e) (h : step s e = some s')
    (hinv : Inv s) : Inv s' := by
  cases e with
  | insert key =>
    obtain rfl := Option.some.inj h
    obtain ⟨⟨hkey, hfits⟩, hquiet⟩ := hvalid
    exact ⟨(addHashtable_spec hinv.holds hfits hkey.1 hkey.2).1,
      fun i a ha => right_insert hinv.holds hkey hquiet ha (hinv.waiting i a ha), hinv.answered⟩
  | search i key =>
    simp only [step] at h
    split at h
    · cases h
    · obtain rfl := Option.some.inj h
      refine ⟨hinv.holds, fun j a ha => ?_, hinv.answered⟩
      simp only [Function.update_apply] at ha
      split at ha
      · obtain rfl := Option.some.inj ha
        exact right_search hinv.holds key
      · exact hinv.waiting j a ha
  | read i =>
    obtain ⟨a, ha, rfl⟩ := Option.map_eq_some_iff.mp h
    refine ⟨hinv.holds, fun j b hb => ?_, fun p hp => ?_⟩
    · simp only [Function.update_apply] at hb
      split at hb
      · cases hb
      · exact hinv.waiting j b hb
    · rcases List.mem_append.mp hp with hp | hp
      · exact hinv.answered p hp
      · rw [List.mem_singleton] at hp
        subst hp
        exact hinv.waiting i a ha

/-- The server of a new table. -/
def fresh (ι : Type) (hashsize keysize : Nat) : Server ι := { hp := hashtableCreate hashsize keysize }

/-- **Every lookup is right**, as long as the inserts leave the waiting ones alone. -/
theorem lookups_right {hashsize keysize : Nat} (hsize : 1 ≤ hashsize) {es : List (Event ι)} {s : Server ι}
    (hok : Run.Along step (fun s e => Valid s e ∧ Quiet s e) (fresh ι hashsize keysize) es)
    (hrun : Run.run step (fresh ι hashsize keysize) es = some s) : ∀ p ∈ s.answers, Right p.1 p.2 := by
  have hinit : Inv (fresh ι hashsize keysize) :=
    ⟨holds_create keysize hsize, fun i a ha => (by cases ha), fun p hp => (by cases hp)⟩
  exact (Run.run_invariant (fun hok hstep => step_inv hok hstep) hok hrun hinit).answered

/-- A key is looked up that is there, while another one is inserted. -/
def besideLookup : List (Event (Fin 1)) :=
  [.insert "t1".toList, .search 0 "t1".toList, .insert "v2".toList, .read 0]

theorem lookups_right_besideLookup :
    ∃ s, Run.run step (fresh (Fin 1) 100 68) besideLookup = some s ∧ ∀ p ∈ s.answers, Right p.1 p.2 := by
  have hrun : (Run.run step (fresh (Fin 1) 100 68) besideLookup).isSome := by decide +kernel
  obtain ⟨s, hs⟩ := Option.isSome_iff_exists.mp hrun
  exact ⟨s, hs, lookups_right (by decide) (by decide +kernel) hs⟩

/-- The home slot of a key depends on its digits only: `u1` fills the slot that was answered for `t1`. -/
theorem not_forall_lookups_right :
    ¬ ∀ (hashsize keysize : Nat), 1 ≤ hashsize → ∀ (es : List (Event (Fin 1))) (s : Server (Fin 1)),
      Run.Along step Valid (fresh (Fin 1) hashsize keysize) es →
      Run.run step (fresh (Fin 1) hashsize keysize) es = some s → ∀ p ∈ s.answers, Right p.1 p.2 := by
  intro h
  have hread : ((Run.run step (fresh (Fin 1) 100 68)
      [.search 0 "t1".toList, .insert "u1".toList, .read 0]).map fun s => s.answers.map fun p => (p.1.key, p.2)) =
      some [("t1".toList, some { ptr := 0, key := "u1".toList })] := by decide +kernel
  obtain ⟨s, hs, hanswers⟩ := Option.map_eq_some_iff.mp hread
  obtain ⟨p, hp, heq⟩ := List.mem_map.mp (hanswers ▸ List.mem_singleton_self _ :
    ("t1".toList, some { ptr := 0, key := "u1".toList }) ∈ s.answers.map fun p => (p.1.key, p.2))
  obtain ⟨hkey, hptr⟩ := Prod.mk.inj heq
  have hown := (h 100 68 (by decide) _ s (by decide +kernel) hs p hp).own _ hptr
  rw [hkey] at hown
  exact absurd hown (by decide)

end NXTServices.Lookup
