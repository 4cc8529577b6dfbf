import NXTServices.Hashtable

/-!
# What `resize_hashtable` of `utils/jl777hash.h` says while it works

* `Line` : the lines printed when something went wrong;
* `resizeHashtableTraced` : both loops of the function, with these lines;
* `resizeHashtableTraced_newhp` : the table it makes is the one of `resizeHashtable`;
* `Counted`, `resize_counted` : a resize of any table makes up no item and counts those it has;
* `resizeHashtableTraced_keeps` : a searchable table keeps its items down to one slot an item, and nothing is printed.
-/

namespace NXTServices.Hashtable
open OpenAddressing

/-- The lines that tell of trouble; `none` is `HASHSEARCH_ERROR`. -/
inductive Line where
  | duplicateEntry (ind : Nat) (newind : Option Nat)
  | resizeError (numitems newnumitems : Nat)
  | cantFind (key : Text)

structure Resizing where
  newhp : Hashtable
  lines : List Line := []

/-- The first loop at slot `ind`. -/
def moveSlot (hp : Hashtable) (r : Resizing) (ind : Nat) : Resizing :=
  match slot hp.hashtable ind with
  | none => r
  | some ptr =>
    match searchHashtable r.newhp ptr.key with
    | none => { r with lines := r.lines ++ [.duplicateEntry ind none] }
    | some newind =>
      if slot r.newhp.hashtable newind = none then
        { r with newhp := { r.newhp with
            hashtable := r.newhp.hashtable.set newind (some ptr)
            numitems := r.newhp.numitems + 1 } }
      else { r with lines := r.lines ++ [.duplicateEntry ind (some newind)] }

/-- The second loop at slot `ind`. -/
def checkSlot (hp newhp : Hashtable) (ind : Nat) : Option Line :=
  match slot hp.hashtable ind with
  | none => none
  | some ptr =>
    match searchHashtable newhp ptr.key with
    | none => some (.cantFind ptr.key)
    | some newind => if slot newhp.hashtable newind = none then some (.cantFind ptr.key) else none

def resizeHashtableTraced (hp : Hashtable) (newsize : Nat) : Resizing :=
  let r := (List.range hp.hashsize).foldl (moveSlot hp) ⟨blank hp newsize, []⟩
  if hp.numitems ≠ r.newhp.numitems then
    { r with lines := r.lines ++ [.resizeError hp.numitems r.newhp.numitems] }
  else
    { r with lines := r.lines ++ (List.range hp.hashsize).filterMap (checkSlot hp r.newhp) }

variable {hp newhp : Hashtable} {r : Resizing} {ind : Nat} {ptr : Entry}

/-! ## One item -/

theorem moveSlot_of_none (h : slot hp.hashtable ind = none) : moveSlot hp r ind = r := by
  unfold moveSlot
  rw [h]

theorem moveSlot_newhp (h : slot hp.hashtable ind = some ptr) :
    (moveSlot hp r ind).newhp = r.newhp.moveItem ptr := by
  simp only [moveSlot, moveItem, h]
  cases searchHashtable r.newhp ptr.key with
  | none => rfl
  | some newind => by_cases hfree : slot r.newhp.hashtable newind = none <;> simp only [hfree, if_true, if_false]

theorem moveSlot_lines {newind : Nat} (h : slot hp.hashtable ind = some ptr)
    (hs : searchHashtable r.newhp ptr.key = some newind) (hfree : slot r.newhp.hashtable newind = none) :
    (moveSlot hp r ind).lines = r.lines := by
  simp only [moveSlot, h, hs, hfree, if_true]

theorem checkSlot_eq_none (h : ∀ ptr, slot hp.hashtable ind = some ptr →
    ∃ newind, searchHashtable newhp ptr.key = some newind ∧ slot newhp.hashtable newind = some ptr) :
    checkSlot hp newhp ind = none := by
  unfold checkSlot
  cases hslot : slot hp.hashtable ind with
  | none => rfl
  | some ptr =>
    obtain ⟨newind, hs, hthere⟩ := h ptr hslot
    simp only [hs, hthere, reduceCtorEq, if_false]

/-! ## The loops -/

theorem foldl_moveSlot_newhp (hp : Hashtable) (r : Resizing) (inds : List Nat) :
    (inds.foldl (moveSlot hp) r).newhp = (inds.filterMap (slot hp.hashtable)).foldl moveItem r.newhp := by
  induction inds generalizing r with
  | nil => rfl
  | cons ind inds ih =>
    rw [List.foldl_cons, ih]
    cases h : slot hp.hashtable ind with
    | none => rw [moveSlot_of_none h, List.filterMap_cons_none h]
    | some ptr => rw [moveSlot_newhp h, List.filterMap_cons_some h, List.foldl_cons]

theorem resizeHashtableTraced_newhp (hlen : hp.hashtable.length = hp.hashsize) (newsize : Nat) :
    (resizeHashtableTraced hp newsize).newhp = resizeHashtable hp newsize := by
  have hrun := foldl_moveSlot_newhp hp ⟨blank hp newsize, []⟩ (List.range hp.hashsize)
  rw [← hlen, ← entries_eq_range, hlen] at hrun
  simp only [resizeHashtableTraced]
  split <;> exact hrun

/-- Items with keys of their own and a slot each are moved without a line. -/
theorem foldl_moveSlot_lines {newsize : Nat} (hpos : 0 < newsize) (inds : List Nat)
    (hle : (inds.filterMap (slot hp.hashtable)).length ≤ newsize)
    (hdistinct : ((inds.filterMap (slot hp.hashtable)).map Entry.key).Nodup) :
    (inds.foldl (moveSlot hp) ⟨blank hp newsize, []⟩).lines = [] := by
  induction inds using List.reverseRecOn with
  | nil => rfl
  | append_singleton inds ind ih =>
    rw [List.filterMap_append] at hle hdistinct
    rw [List.length_append] at hle
    rw [List.map_append, List.nodup_append] at hdistinct
    obtain ⟨hinds, -, hnew⟩ := hdistinct
    have hbefore := ih (by omega) hinds
    rw [List.foldl_concat]
    cases hslot : slot hp.hashtable ind with
    | none => rw [moveSlot_of_none hslot, hbefore]
    | some ptr =>
      rw [List.filterMap_cons_some hslot, List.filterMap_nil] at hle hnew
      rw [List.length_singleton] at hle
      obtain ⟨hmoved, hframe⟩ := (moved_blank hp hpos).foldl (inds.filterMap (slot hp.hashtable))
        (by rw [List.length_nil]; simp only; omega) (by rwa [List.append_nil])
      rw [← foldl_moveSlot_newhp hp ⟨blank hp newsize, []⟩, List.append_nil] at hmoved
      rw [← foldl_moveSlot_newhp hp ⟨blank hp newsize, []⟩] at hframe
      have hother : ∀ e ∈ (inds.filterMap (slot hp.hashtable)).reverse, e.key ≠ ptr.key := by
        intro e he
        exact hnew _ (List.mem_map_of_mem (List.mem_reverse.mp he)) _ (by simp)
      obtain ⟨newind, -, hs, hfree⟩ := hmoved.search_free
        (by rw [List.length_reverse, hframe.hashsize]; simp only; omega) hother
      rw [moveSlot_lines hslot hs hfree, hbefore]

/-! ## Any table -/

theorem moveItem_cases (hp : Hashtable) (ptr : Entry) :
    hp.moveItem ptr = hp ∨ ∃ newind, searchHashtable hp ptr.key = some newind ∧ slot hp.hashtable newind = none ∧
      hp.moveItem ptr = { hp with
        hashtable := hp.hashtable.set newind (some ptr)
        numitems := hp.numitems + 1 } := by
  unfold moveItem
  cases hs : searchHashtable hp ptr.key with
  | none => exact .inl rfl
  | some newind =>
    by_cases hfree : slot hp.hashtable newind = none
    · exact .inr ⟨newind, rfl, hfree, if_pos hfree⟩
    · exact .inl (if_neg hfree)

/-- A table with as many slots as it says and as many items as it counts. -/
structure Counted (hp : Hashtable) : Prop where
  hashsize_pos : 0 < hp.hashsize
  length_eq : hp.hashtable.length = hp.hashsize
  numitems_eq : hp.numitems = (entries hp.hashtable).length

theorem Counted.fill (h : Counted hp) {key : Text} (hs : searchHashtable hp key = some ind)
    (hfree : slot hp.hashtable ind = none) (ptr : Entry) (next : Nat) :
    Counted { hp with
      hashtable := hp.hashtable.set ind (some ptr)
      numitems := hp.numitems + 1
      next := next } := by
  have hlt : ind < hp.hashtable.length := h.length_eq ▸ search_lt h.hashsize_pos hs
  refine ⟨h.hashsize_pos, ?_, ?_⟩
  · rw [List.length_set, h.length_eq]
  · rw [(entries_set_perm ptr hlt hfree).length_eq, List.length_cons, h.numitems_eq]

/-- Moving some items to a table makes up no item. -/
theorem Counted.foldl_moveItem (items : List Entry) (h : Counted hp) :
    Counted (items.foldl moveItem hp) ∧ SameFrame hp (items.foldl moveItem hp) ∧
      (entries (items.foldl moveItem hp).hashtable).Subperm (items ++ entries hp.hashtable) := by
  induction items generalizing hp with
  | nil => exact ⟨h, .refl hp, List.Subperm.refl _⟩
  | cons ptr items ih =>
    rw [List.foldl_cons]
    obtain heq | ⟨newind, hs, hfree, heq⟩ := moveItem_cases hp ptr
    · rw [heq]
      obtain ⟨hrun, hframe, hitems⟩ := ih h
      exact ⟨hrun, hframe, hitems.trans (List.subperm_cons_self)⟩
    · have hlt : newind < hp.hashtable.length := h.length_eq ▸ search_lt h.hashsize_pos hs
      have hstep : Counted (hp.moveItem ptr) := heq ▸ h.fill hs hfree ptr hp.next
      obtain ⟨hrun, hframe, hitems⟩ := ih hstep
      refine ⟨hrun, .trans ?_ hframe, hitems.trans ?_⟩
      · rw [heq]
        exact ⟨rfl, rfl, rfl⟩
      · rw [heq]
        have hput := (entries_set_perm ptr hlt hfree).append_left items
        exact (hput.trans List.perm_middle).subperm

theorem resize_counted (hp : Hashtable) {newsize : Nat} (hpos : 0 < newsize) :
    Counted (resizeHashtable hp newsize) ∧ SameFrame (blank hp newsize) (resizeHashtable hp newsize) ∧
      (entries (resizeHashtable hp newsize).hashtable).Subperm (entries hp.hashtable) := by
  have hblank : entries (blank hp newsize).hashtable = [] := by simp [entries]
  have hcounted : Counted (blank hp newsize) :=
    ⟨hpos, List.length_replicate, by rw [hblank]; rfl⟩
  obtain ⟨hrun, hframe, hitems⟩ := hcounted.foldl_moveItem (entries hp.hashtable)
  rw [hblank, List.append_nil] at hitems
  exact ⟨hrun, hframe, hitems⟩

/-! ## Searchable tables -/

/-- The items of a searchable table are all moved and all found again. -/
theorem resizeHashtableTraced_lines {newsize : Nat} (hpos : 0 < newsize)
    (hprobed : Probed Entry.key (fun k => (calcDecimalhash k).toNat) hp.hashsize hp.hashtable)
    (hcount : hp.numitems = (entries hp.hashtable).length) (hle : hp.numitems ≤ newsize) :
    (resizeHashtableTraced hp newsize).lines = [] := by
  have hlen := hprobed.length_eq
  have hslots := entries_eq_range hp.hashtable
  rw [hlen] at hslots
  have hdistinct := hprobed.entries_nodup
  obtain ⟨hmoved, -⟩ := resize_moved hpos (hcount ▸ hle) hdistinct
  have hmove : ((List.range hp.hashsize).foldl (moveSlot hp) ⟨blank hp newsize, []⟩).lines = [] := by
    apply foldl_moveSlot_lines hpos <;> rw [← hslots]
    · rwa [← hcount]
    · exact hdistinct
  have hnewhp : ((List.range hp.hashsize).foldl (moveSlot hp) ⟨blank hp newsize, []⟩).newhp =
      resizeHashtable hp newsize := by
    rw [foldl_moveSlot_newhp, ← hslots]
    rfl
  have hcheck : ∀ ind ∈ List.range hp.hashsize, checkSlot hp (resizeHashtable hp newsize) ind = none := by
    intro ind _
    apply checkSlot_eq_none
    intro ptr hptr
    have hthere := hmoved.items.mem_iff.mpr (List.mem_reverse.mpr (mem_entries.mpr ⟨ind, hptr⟩))
    obtain ⟨newind, hnewind⟩ := mem_entries.mp hthere
    exact ⟨newind, hmoved.probed.search_of_mem hnewind, hnewind⟩
  simp only [resizeHashtableTraced, hmove, hnewhp]
  rw [if_neg (by rw [hmoved.numitems_eq, List.length_reverse]; exact not_not.mpr hcount),
    List.filterMap_eq_nil_iff.mpr hcheck, List.append_nil]

/-- **A resize keeps a searchable table**, down to one slot for each item, and says nothing. -/
theorem resizeHashtableTraced_keeps {newsize : Nat}
    (hprobed : Probed Entry.key (fun k => (calcDecimalhash k).toNat) hp.hashsize hp.hashtable)
    (hcount : hp.numitems = (entries hp.hashtable).length) (hle : hp.numitems ≤ newsize) (hpos : 1 ≤ newsize) :
    let r := resizeHashtableTraced hp newsize
    (entries r.newhp.hashtable).Perm (entries hp.hashtable) ∧ r.newhp.numitems = hp.numitems ∧
      r.newhp.hashsize = newsize ∧
      Probed Entry.key (fun k => (calcDecimalhash k).toNat) newsize r.newhp.hashtable ∧ r.lines = [] := by
  intro r
  obtain ⟨hmoved, hframe⟩ := resize_moved hpos (hcount ▸ hle) hprobed.entries_nodup
  have hnewhp : r.newhp = resizeHashtable hp newsize := resizeHashtableTraced_newhp hprobed.length_eq newsize
  rw [hnewhp]
  refine ⟨?_, ?_, hframe.hashsize, ?_, ?_⟩
  · exact hmoved.items.trans (List.reverse_perm _)
  · rw [hmoved.numitems_eq, List.length_reverse, hcount]
  · have hprobed := hmoved.probed
    rwa [hframe.hashsize] at hprobed
  · exact resizeHashtableTraced_lines hpos hprobed hcount hle

/-- Two items in three slots, the second one past the end of the table, are moved to two slots. -/
theorem resizeHashtableTraced_tight :
    (addAll (hashtableCreate 3 8) ["2".toList, "11".toList]).numitems = 2 ∧
      (entries (resizeHashtableTraced (addAll (hashtableCreate 3 8) ["2".toList, "11".toList]) 2).newhp.hashtable).Perm
        (entries (addAll (hashtableCreate 3 8) ["2".toList, "11".toList]).hashtable) ∧
      (resizeHashtableTraced (addAll (hashtableCreate 3 8) ["2".toList, "11".toList]) 2).newhp.hashsize = 2 ∧
      (resizeHashtableTraced (addAll (hashtableCreate 3 8) ["2".toList, "11".toList]) 2).lines = [] := by
  have hfits : Fits (hashtableCreate 3 8) ["2".toList, "11".toList] := fits_of_take (by decide)
  obtain ⟨hholds, -⟩ := addAll_holds (by decide) (by decide) hfits
  have hle : (addAll (hashtableCreate 3 8) ["2".toList, "11".toList]).numitems ≤ 2 := by decide
  obtain ⟨hitems, -, hsize, -, hlines⟩ := resizeHashtableTraced_keeps hholds.probed hholds.numitems_eq hle (by decide)
  exact ⟨by decide, hitems, hsize, hlines⟩

end NXTServices.Hashtable
