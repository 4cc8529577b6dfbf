import NXTServices.Torrent.Stray

/-!
# The search tags of `NXTorrent.h`

* `Searchable`, `Indexed` : a record is listed once under each of its texts, and so is every active one;
* `AMmessage.listing` : the listing of a `LIST` message;
* `ActivatesNew`, `KeepsIndex` : what a run is to do with new listings, and with all;
* `Plainly`, `keepsIndex_iff` : the messages that see to it, by cases on what is created;
* `along_keepsIndex_iff` : the same for runs.
-/

namespace NXTServices.Torrent
open Hashtable (storeKey storeKey_of_valid ValidKey)

/-- The search tag of each of its texts lists the record once. -/
def Searchable (dp : NXTorrentInfo) (r : Nat) : Prop :=
  (∀ key ∈ (dp.lp r).category, key ≠ [] → (found dp.categories key).count r = 1) ∧
    ∀ key ∈ (dp.lp r).tag, key ≠ [] → (found dp.tags key).count r = 1
deriving Decidable

def Indexed (dp : NXTorrentInfo) : Prop :=
  ∀ r ∈ dp.entries, (dp.lp r).status = nxtorrentActive → Searchable dp r
deriving Decidable

/-- The listing that a `LIST` message brings. -/
def AMmessage.listing (env : Env) (m : AMmessage) : Option NXTorrentListing :=
  if m.listingbits = 0#64 ∨ m.funcid ≠ nxtorrentList then none else m.argjson.map (decodeNXTorrentJson env)

/-- A listing with a new id is active, for its duration, and found under its texts. -/
def ActivatesNew (env : Env) (dp : NXTorrentInfo) (m : AMmessage) : Prop :=
  ∀ l ∈ m.listing env, ValidKey 64 l.listingid → getListingid dp l.listingid = none →
    ∃ r ∈ getListingid (updateNXTorrentState env dp m) l.listingid,
      let l' := (updateNXTorrentState env dp m).lp r
      l'.status = nxtorrentActive ∧ l'.expiration = l'.listedtime + l'.duration ∧
        Searchable (updateNXTorrentState env dp m) r

/-- No category and no tag. -/
def Bare (l : NXTorrentListing) : Prop := ∀ key ∈ l.category ++ l.tag, key = []
deriving Decidable

/-- The categories and the tags are shorter than their keys may be. -/
def Short (l : NXTorrentListing) : Prop := ∀ key ∈ l.category ++ l.tag, key.length < 16
deriving Decidable

/-- A message that makes a listing has it inactive with short texts, or active with nothing left to do. -/
def Plainly (env : Env) (dp : NXTorrentInfo) (m : AMmessage) : Prop :=
  ∀ l ∈ m.listing env, dp.listings (storeKey 64 l.listingid) = none →
    if ValidKey 64 l.listingid then
      l.status = nxtorrentInactive ∧ Short l ∨
        l.status = nxtorrentActive ∧ l.expiration = l.listedtime + l.duration ∧ Bare l
    else (l.status = nxtorrentInactive → Short l) ∧ (l.status = nxtorrentActive → Bare l)

/-- The tables are wellformed, with keys that a call can make. -/
structure Filed (dp : NXTorrentInfo) : Prop where
  wellformed : Wellformed dp
  categories : Fits dp.categories
  tags : Fits dp.tags

/-- Inactive records can be found once they are active. -/
def Ready (dp : NXTorrentInfo) : Prop := ∀ r ∈ dp.entries, (dp.lp r).status = nxtorrentInactive → Short (dp.lp r)

section
variable {env : Env} {dp dp' : NXTorrentInfo} {m : AMmessage} {l : NXTorrentListing} {r : Nat}

theorem short_iff : Short l ↔ (∀ key ∈ l.category, key.length < 16) ∧ ∀ key ∈ l.tag, key.length < 16 := by
  unfold Short
  simp only [List.mem_append, or_imp, forall_and]

theorem short_listing (env : Env) (o : Outside) (a : ListArgs) : Short (a.listing env o) := by
  have hshort (texts : List Text) : ∀ key ∈ texts.map fun text => Gateway.safecopy text 15, key.length < 16 := by
    intro key hkey
    obtain ⟨text, -, rfl⟩ := List.mem_map.mp hkey
    unfold Gateway.safecopy
    rw [List.length_take]
    omega
  exact short_iff.mpr ⟨hshort a.categories, hshort a.tags⟩

theorem bare_iff : Bare l ↔ (∀ key ∈ l.category, key = []) ∧ ∀ key ∈ l.tag, key = [] := by
  unfold Bare
  simp only [List.mem_append, or_imp, forall_and]

theorem Bare.short (h : Bare l) : Short l := fun key hkey => by
  rw [h key hkey]
  decide

/-! ## What keeps the index -/

theorem Fits.count_eq_one_iff {table : Table (List Nat)} (h : Fits table) (hnodup : ∀ key, (tagged table key).Nodup)
    (key : Text) : (found table key).count r = 1 ↔ r ∈ found table key := by
  constructor
  · intro hcount
    exact List.count_pos_iff.mp (by omega)
  · intro hr
    have hvalid := h.valid_of_mem hr
    rw [found_of_valid hvalid] at hr ⊢
    exact List.count_eq_one_of_mem (hnodup key) hr

theorem searchable_iff (h : Filed dp) : Searchable dp r ↔
    (∀ key ∈ (dp.lp r).category, key ≠ [] → r ∈ found dp.categories key) ∧
      ∀ key ∈ (dp.lp r).tag, key ≠ [] → r ∈ found dp.tags key := by
  unfold Searchable
  simp only [h.categories.count_eq_one_iff h.wellformed.nodupCategories, h.tags.count_eq_one_iff h.wellformed.nodupTags]

theorem short_of_found {table : Table (List Nat)} {keys : List Text} (h : Fits table)
    (hfound : ∀ key ∈ keys, key ≠ [] → r ∈ found table key) : ∀ key ∈ keys, key.length < 16 := by
  intro key hkey
  by_cases hne : key = []
  · rw [hne]
    decide
  · exact (h.valid_of_mem (hfound key hkey hne)).2

theorem Searchable.short (hsearch : Searchable dp r) (h : Filed dp) : Short (dp.lp r) := by
  obtain ⟨hcategory, htag⟩ := (searchable_iff h).mp hsearch
  exact short_iff.mpr ⟨short_of_found h.categories hcategory, short_of_found h.tags htag⟩

theorem Frame.filed (h : Frame dp dp') (hfiled : Filed dp) : Filed dp' where
  wellformed := h.wellformed hfiled.wellformed
  categories := h.categories ▸ hfiled.categories
  tags := h.tags ▸ hfiled.tags

theorem Frame.indexed (h : Frame dp dp') (hindexed : Indexed dp) : Indexed dp' := by
  intro r hr hactive
  rw [h.entries] at hr
  have hold := hindexed r hr (h.active hactive)
  unfold Searchable at hold ⊢
  rwa [h.category, h.tag, h.categories, h.tags]

theorem Frame.ready (h : Frame dp dp') (hready : Ready dp) : Ready dp' := by
  intro r hr hinactive
  rw [h.entries] at hr
  have hold := hready r hr (h.inactive hinactive)
  unfold Short at hold ⊢
  rwa [h.category, h.tag]

theorem filed_newListing (h : Filed dp) (hnone : dp.listings (storeKey 64 l.listingid) = none) :
    Filed (newListing dp l) where
  wellformed := (h.wellformed.addListing _).storeListing _ _
  categories := newListing_categories hnone ▸ h.categories
  tags := newListing_tags hnone ▸ h.tags

theorem mem_newListing_entries (hnone : dp.listings (storeKey 64 l.listingid) = none) :
    r ∈ (newListing dp l).entries ↔ r ∈ dp.entries ∨ r = dp.lps.next := by
  rw [newListing_entries hnone, List.mem_append, List.mem_singleton]

theorem searchable_newListing_of_ne (hindexed : Indexed dp) (hnone : dp.listings (storeKey 64 l.listingid) = none)
    (hr : r ∈ (newListing dp l).entries) (hne : r ≠ dp.lps.next)
    (hactive : ((newListing dp l).lp r).status = nxtorrentActive) : Searchable (newListing dp l) r := by
  have hold := ((mem_newListing_entries hnone).mp hr).resolve_right hne
  rw [lp_newListing hnone, if_neg hne] at hactive
  have hsearch := hindexed r hold hactive
  unfold Searchable at hsearch ⊢
  rwa [lp_newListing hnone, if_neg hne, newListing_categories hnone, newListing_tags hnone]

theorem short_newListing_of_ne (hready : Ready dp) (hnone : dp.listings (storeKey 64 l.listingid) = none)
    (hr : r ∈ (newListing dp l).entries) (hne : r ≠ dp.lps.next)
    (hinactive : ((newListing dp l).lp r).status = nxtorrentInactive) : Short ((newListing dp l).lp r) := by
  have hold := ((mem_newListing_entries hnone).mp hr).resolve_right hne
  rw [lp_newListing hnone, if_neg hne] at hinactive ⊢
  exact hready r hold hinactive

theorem indexed_newListing (hindexed : Indexed dp) (hnone : dp.listings (storeKey 64 l.listingid) = none)
    (hstatus : l.status ≠ nxtorrentActive) : Indexed (newListing dp l) := by
  intro r hr hactive
  apply searchable_newListing_of_ne hindexed hnone hr _ hactive
  rintro rfl
  rw [lp_newListing hnone, if_pos rfl] at hactive
  exact hstatus hactive

theorem ready_newListing (hready : Ready dp) (hnone : dp.listings (storeKey 64 l.listingid) = none)
    (hshort : Short l) : Ready (newListing dp l) := by
  intro r hr hinactive
  by_cases hne : r = dp.lps.next
  · rw [lp_newListing hnone, if_pos hne]
    exact hshort
  · exact short_newListing_of_ne hready hnone hr hne hinactive

theorem filed_modifyLp (h : Filed dp) (f : NXTorrentListing → NXTorrentListing) : Filed (dp.modifyLp r f) :=
  ⟨h.wellformed.modifyLp r f, h.categories, h.tags⟩

theorem searchable_listingAMbits {amTxidbits : BitVec 64} {q : Nat} :
    Searchable (dp.modifyLp r fun l => { l with listingAMbits := amTxidbits }) q ↔ Searchable dp q := by
  unfold Searchable
  rw [lp_modifyLp]
  split
  · next heq =>
    rw [heq]
    rfl
  · rfl

theorem indexed_listingAMbits {amTxidbits : BitVec 64} :
    Indexed (dp.modifyLp r fun l => { l with listingAMbits := amTxidbits }) ↔ Indexed dp := by
  apply forall₂_congr
  intro q hq
  rw [searchable_listingAMbits, lp_modifyLp]
  split
  · next heq => rw [heq]
  · rfl

theorem lp_activate_proj {β : Type} (p : NXTorrentListing → β) (hp : ∀ l, p (activated l) = p l) (r' : Nat) :
    p ((activate dp r').lp r) = p (dp.lp r) := by
  rw [lp_activate]
  split
  · next heq => rw [hp, heq]
  · rfl

theorem activate_category (r' : Nat) : ((activate dp r').lp r).category = (dp.lp r).category := by
  apply lp_activate_proj
  intro l
  unfold activated
  split <;> rfl

theorem activate_tag (r' : Nat) : ((activate dp r').lp r).tag = (dp.lp r).tag := by
  apply lp_activate_proj
  intro l
  unfold activated
  split <;> rfl

theorem mem_activate_categories {key : Text} {r' : Nat} : r ∈ found (activate dp r').categories key ↔
    r ∈ found dp.categories key ∨ (dp.lp r').status = nxtorrentInactive ∧ r = r' ∧
      ∃ key' ∈ (dp.lp r').category, key' ≠ [] ∧ key = storeKey 16 key' := by
  unfold activate
  dsimp only
  split
  · next hstatus =>
    show r ∈ found (addSearchTags dp.categories (dp.lp r').category r') key ↔ _
    simp only [mem_found_addSearchTags, hstatus, true_and]
  · next hstatus => simp only [hstatus, false_and, or_false]

theorem mem_activate_tags {key : Text} {r' : Nat} : r ∈ found (activate dp r').tags key ↔
    r ∈ found dp.tags key ∨ (dp.lp r').status = nxtorrentInactive ∧ r = r' ∧
      ∃ key' ∈ (dp.lp r').tag, key' ≠ [] ∧ key = storeKey 16 key' := by
  unfold activate
  dsimp only
  split
  · next hstatus =>
    show r ∈ found (addSearchTags dp.tags (dp.lp r').tag r') key ↔ _
    simp only [mem_found_addSearchTags, hstatus, true_and]
  · next hstatus => simp only [hstatus, false_and, or_false]

theorem filed_activate (h : Filed dp) {r' : Nat} (hr' : r' ∈ dp.entries) : Filed (activate dp r') := by
  refine ⟨h.wellformed.activate hr', ?_, ?_⟩
  · unfold activate
    dsimp only
    split
    · exact h.categories.addSearchTags _ _
    · exact h.categories
  · unfold activate
    dsimp only
    split
    · exact h.tags.addSearchTags _ _
    · exact h.tags

theorem eq_storeKey {key : Text} (hne : key ≠ []) (hshort : key.length < 16) : key = storeKey 16 key :=
  (storeKey_of_valid hne hshort).symm

/-- What is listed stays so, and an inactive record is listed under its texts. -/
theorem searchable_activate (h : Filed dp) {r' : Nat} (hr' : r' ∈ dp.entries)
    (hr : Searchable dp r ∨ r = r' ∧ (dp.lp r').status = nxtorrentInactive ∧ Short (dp.lp r')) :
    Searchable (activate dp r') r := by
  rw [searchable_iff h] at hr
  rw [searchable_iff (filed_activate h hr'), activate_category, activate_tag]
  rcases hr with ⟨hcategory, htag⟩ | ⟨rfl, hstatus, hshort⟩
  · constructor
    · exact fun key hkey hne => mem_activate_categories.mpr (.inl (hcategory key hkey hne))
    · exact fun key hkey hne => mem_activate_tags.mpr (.inl (htag key hkey hne))
  · obtain ⟨hcategory, htag⟩ := short_iff.mp hshort
    constructor
    · intro key hkey hne
      exact mem_activate_categories.mpr (.inr ⟨hstatus, rfl, key, hkey, hne, eq_storeKey hne (hcategory key hkey)⟩)
    · intro key hkey hne
      exact mem_activate_tags.mpr (.inr ⟨hstatus, rfl, key, hkey, hne, eq_storeKey hne (htag key hkey)⟩)

theorem activate_of_ne {r' : Nat} (hstatus : (dp.lp r').status ≠ nxtorrentInactive) : activate dp r' = dp :=
  if_neg hstatus

theorem activate_entries (r' : Nat) : (activate dp r').entries = dp.entries := by
  unfold activate
  dsimp only
  split <;> rfl

theorem short_activate (r' : Nat) : Short ((activate dp r').lp r) ↔ Short (dp.lp r) := by
  unfold Short
  rw [activate_category, activate_tag]

/-- The index after an activation, from the record that is activated. -/
theorem indexed_activate_iff (h : Filed dp) {r' : Nat} (hr' : r' ∈ dp.entries)
    (hothers : ∀ r ∈ dp.entries, r ≠ r' → (dp.lp r).status = nxtorrentActive → Searchable dp r) :
    Indexed (activate dp r') ↔ ((dp.lp r').status = nxtorrentInactive → Short (dp.lp r')) ∧
      ((dp.lp r').status = nxtorrentActive → Searchable dp r') := by
  constructor
  · intro hindexed
    constructor
    · intro hinactive
      have hactive : ((activate dp r').lp r').status = nxtorrentActive := by
        rw [lp_activate, if_pos rfl, activated, if_pos hinactive]
      have hmem : r' ∈ (activate dp r').entries := by rwa [activate_entries]
      have hsearch := hindexed r' hmem hactive
      exact (short_activate r').mp (hsearch.short (filed_activate h hr'))
    · intro hactive
      have hne : (dp.lp r').status ≠ nxtorrentInactive := by
        rw [hactive]
        decide
      rw [activate_of_ne hne] at hindexed
      exact hindexed r' hr' hactive
  · rintro ⟨hshort, hactivated⟩ r hr hactive
    rw [activate_entries] at hr
    apply searchable_activate h hr'
    by_cases hsame : r = r'
    · subst hsame
      by_cases hstatus : (dp.lp r).status = nxtorrentInactive
      · exact .inr ⟨rfl, hstatus, hshort hstatus⟩
      · rw [activate_of_ne hstatus] at hactive
        exact .inl (hactivated hactive)
    · rw [lp_activate, if_neg hsame] at hactive
      exact .inl (hothers r hr hsame hactive)

/-- No record is inactive that has been activated. -/
theorem ready_activate {r' : Nat}
    (hothers : ∀ r ∈ dp.entries, r ≠ r' → (dp.lp r).status = nxtorrentInactive → Short (dp.lp r)) :
    Ready (activate dp r') := by
  intro r hr hinactive
  rw [activate_entries] at hr
  rw [short_activate]
  by_cases hsame : r = r'
  · rw [lp_activate, if_pos hsame] at hinactive
    unfold activated at hinactive
    split at hinactive
    · cases hinactive
    · next hstatus => exact absurd hinactive hstatus
  · rw [lp_activate, if_neg hsame] at hinactive
    exact hothers r hr hsame hinactive

theorem searchable_newListing_iff (h : Filed dp) (hnone : dp.listings (storeKey 64 l.listingid) = none) :
    Searchable (newListing dp l) dp.lps.next ↔ Bare l := by
  have hnowhere {table : Table (List Nat)} (hfits : Fits table) (hwf : ∀ key, ∀ r ∈ tagged table key, r ∈ dp.entries)
      (key : Text) : dp.lps.next ∉ found table key := by
    intro hmem
    have hvalid := hfits.valid_of_mem hmem
    rw [found_of_valid hvalid] at hmem
    exact h.wellformed.next_not_mem (hwf key _ hmem)
  have hcategory := hnowhere h.categories h.wellformed.category
  have htag := hnowhere h.tags h.wellformed.tag
  rw [searchable_iff (filed_newListing h hnone), newListing_categories hnone, newListing_tags hnone,
    lp_newListing hnone, if_pos rfl, bare_iff]
  simp only [hcategory, htag, imp_false, not_not]

/-! ## The messages -/

theorem listMessage_old {amTxidbits : BitVec 64} (hr : dp.listings (storeKey 64 l.listingid) = some r) :
    listMessage dp l amTxidbits =
      (activate dp r).modifyLp r fun l => { l with listingAMbits := amTxidbits } := by
  rcases addListing_cases dp l.listingid with ⟨r', hr', heq⟩ | ⟨hnone, -⟩
  · obtain rfl := Option.some.inj (hr.symm.trans hr')
    unfold listMessage
    rw [heq]
    rfl
  · rw [hr] at hnone
    cases hnone

theorem next_mem_newListing (hnone : dp.listings (storeKey 64 l.listingid) = none) :
    dp.lps.next ∈ (newListing dp l).entries := (mem_newListing_entries hnone).mpr (.inr rfl)

theorem filed_listMessage (h : Filed dp) (amTxidbits : BitVec 64) : Filed (listMessage dp l amTxidbits) := by
  cases hr : dp.listings (storeKey 64 l.listingid) with
  | some r =>
    rw [listMessage_old hr]
    exact filed_modifyLp (filed_activate h (h.wellformed.listed _ r hr)) _
  | none =>
    rw [listMessage_new hr]
    exact filed_modifyLp (filed_activate (filed_newListing h hr) (next_mem_newListing hr)) _

theorem ready_listingAMbits {amTxidbits : BitVec 64} (hready : Ready dp) :
    Ready (dp.modifyLp r fun l => { l with listingAMbits := amTxidbits }) := by
  refine Frame.ready (frame_modifyLp dp r ?_ ?_ ?_) hready
  · exact fun _ => rfl
  · exact fun _ => rfl
  · exact fun _ _ _ => id

theorem ready_listMessage (hready : Ready dp) (amTxidbits : BitVec 64) : Ready (listMessage dp l amTxidbits) := by
  cases hr : dp.listings (storeKey 64 l.listingid) with
  | some r =>
    rw [listMessage_old hr]
    exact ready_listingAMbits (ready_activate fun q hq _ => hready q hq)
  | none =>
    rw [listMessage_new hr]
    exact ready_listingAMbits (ready_activate fun q hq hne => short_newListing_of_ne hready hr hq hne)

/-- What a `LIST` message does to the index, and to its listing. -/
theorem indexed_listMessage_iff (h : Filed dp) (hready : Ready dp) (hindexed : Indexed dp) (amTxidbits : BitVec 64) :
    Indexed (listMessage dp l amTxidbits) ↔ (dp.listings (storeKey 64 l.listingid) = none →
      (l.status = nxtorrentInactive → Short l) ∧ (l.status = nxtorrentActive → Bare l)) := by
  cases hr : dp.listings (storeKey 64 l.listingid) with
  | some r =>
    have hmem := h.wellformed.listed _ r hr
    rw [listMessage_old hr, indexed_listingAMbits, indexed_activate_iff h hmem]
    · simp only [reduceCtorEq, false_imp_iff, iff_true]
      exact ⟨hready r hmem, hindexed r hmem⟩
    · intro q hq _ hactive
      exact hindexed q hq hactive
  | none =>
    rw [listMessage_new hr, indexed_listingAMbits,
      indexed_activate_iff (filed_newListing h hr) (next_mem_newListing hr)]
    · rw [lp_newListing hr, if_pos rfl, searchable_newListing_iff h hr]
      simp only [true_imp_iff]
    · intro q hq hne hactive
      exact searchable_newListing_of_ne hindexed hr hq hne hactive

theorem searchable_listMessage_iff (h : Filed dp) (hnone : dp.listings (storeKey 64 l.listingid) = none)
    (amTxidbits : BitVec 64) : Searchable (listMessage dp l amTxidbits) dp.lps.next ↔
      l.status = nxtorrentInactive ∧ Short l ∨ Bare l := by
  have hfiled := filed_newListing h hnone
  have hmem := next_mem_newListing hnone
  have hlp : (newListing dp l).lp dp.lps.next = l := by rw [lp_newListing hnone, if_pos rfl]
  rw [listMessage_new hnone, searchable_listingAMbits]
  by_cases hstatus : l.status = nxtorrentInactive
  · constructor
    · intro hsearch
      have hshort := hsearch.short (filed_activate hfiled hmem)
      rw [short_activate, hlp] at hshort
      exact .inl ⟨hstatus, hshort⟩
    · intro hplain
      have hshort : Short l := hplain.elim And.right Bare.short
      apply searchable_activate hfiled hmem
      rw [hlp]
      exact .inr ⟨rfl, hstatus, hshort⟩
  · rw [activate_of_ne (by rwa [hlp]), searchable_newListing_iff h hnone]
    simp only [hstatus, false_and, false_or]

theorem activated_iff : ((activated l).status = nxtorrentActive ∧
      (activated l).expiration = (activated l).listedtime + (activated l).duration ∧
      (l.status = nxtorrentInactive ∧ Short l ∨ Bare l)) ↔
    l.status = nxtorrentInactive ∧ Short l ∨
      l.status = nxtorrentActive ∧ l.expiration = l.listedtime + l.duration ∧ Bare l := by
  have hbare : Bare l → Short l := Bare.short
  unfold activated
  by_cases hstatus : l.status = nxtorrentInactive
  · have hne : nxtorrentInactive ≠ nxtorrentActive := by decide
    simp only [hstatus, if_true, true_and, hne, false_and, or_false]
    exact ⟨fun h => h.elim id hbare, .inl⟩
  · simp only [hstatus, if_false, false_and, false_or]

theorem update_of_listing (hl : m.listing env = some l) :
    updateNXTorrentState env dp m = listMessage dp l m.amTxidbits := by
  unfold AMmessage.listing at hl
  split at hl
  · cases hl
  · next hlist =>
    push Not at hlist
    obtain ⟨argjson, hargjson, rfl⟩ := Option.map_eq_some_iff.mp hl
    unfold updateNXTorrentState
    rw [if_neg hlist.1, if_pos hlist.2, hargjson]

theorem addListing_cases_newListing (listingid : Text) : (addListing dp listingid).2.2 = dp ∨
    dp.listings (storeKey 64 (storeKey 64 listingid)) = none ∧
      (addListing dp listingid).2.2 = newListing dp { listingid := storeKey 64 listingid } := by
  have hkey : storeKey 64 (storeKey 64 listingid) = storeKey 64 listingid :=
    Hashtable.storeKey_storeKey (by decide) listingid
  rcases addListing_cases dp listingid with ⟨r, -, heq⟩ | ⟨hnone, heq⟩
  · exact .inl (congrArg (fun call => call.2.2) heq)
  · refine .inr ⟨by rwa [hkey], ?_⟩
    unfold newListing storeListing
    rw [addListing_of_none (by rwa [hkey]), heq]
    simp only [hkey, if_true, Arena.alloc_modify]

theorem frame_replyMessage (m : AMmessage) :
    Frame (addListing dp (expandNxt64bits m.listingbits)).2.2 (replyMessage dp m) := by
  have hreply (l : NXTorrentListing) : (reply m l).category = l.category ∧ (reply m l).tag = l.tag ∧
      ∀ status ∈ [nxtorrentInactive, nxtorrentActive], (reply m l).status = status → l.status = status := by
    unfold reply
    split
    · exact ⟨rfl, rfl, fun _ => status_of_write nxtorrentCancelled (by decide)⟩
    · split
      · exact ⟨rfl, rfl, fun _ => status_of_write nxtorrentOffered (by decide)⟩
      · split
        · exact ⟨rfl, rfl, fun _ => status_of_write nxtorrentAccepted (by decide)⟩
        · split
          · split
            · exact ⟨rfl, rfl, fun _ _ => id⟩
            · split <;> exact ⟨rfl, rfl, fun _ _ => id⟩
          · exact ⟨rfl, rfl, fun _ _ => id⟩
  apply (frame_replyFeedbacks _ m _).trans
  exact frame_modifyLp _ _ (fun l => (hreply l).1) (fun l => (hreply l).2.1) fun l => (hreply l).2.2

theorem update_of_none (hnone : m.listing env = none) :
    updateNXTorrentState env dp m = dp ∨ updateNXTorrentState env dp m = replyMessage dp m := by
  unfold updateNXTorrentState
  split
  · exact .inl rfl
  · next hbits =>
    split
    · next hlist =>
      unfold AMmessage.listing at hnone
      rw [if_neg (by simp [hbits, hlist]), Option.map_eq_none_iff] at hnone
      rw [hnone]
      exact .inl rfl
    · exact .inr rfl

theorem replyMessage_cases (m : AMmessage) : Frame dp (replyMessage dp m) ∨
    ∃ l, Bare l ∧ l.status = nxtorrentInactive ∧ dp.listings (storeKey 64 l.listingid) = none ∧
      Frame (newListing dp l) (replyMessage dp m) := by
  have hblank : ∀ key ∈ [([] : Text), [], []], key = [] := by simp
  have hframe := @frame_replyMessage dp m
  rcases @addListing_cases_newListing dp (expandNxt64bits m.listingbits) with hsame | ⟨hnone, hnew⟩
  · rw [hsame] at hframe
    exact .inl hframe
  · rw [hnew] at hframe
    exact .inr ⟨_, bare_iff.mpr ⟨hblank, hblank⟩, rfl, hnone, hframe⟩

theorem indexed_update_of_none (hindexed : Indexed dp) (hnone : m.listing env = none) :
    Indexed (updateNXTorrentState env dp m) := by
  rcases @update_of_none env dp m hnone with hsame | hreply
  · rwa [hsame]
  · rw [hreply]
    rcases @replyMessage_cases dp m with hframe | ⟨l, -, hstatus, hnew, hframe⟩
    · exact hframe.indexed hindexed
    · refine hframe.indexed (indexed_newListing hindexed hnew ?_)
      rw [hstatus]
      decide

/-- **What a message is to do for the index** it does exactly when it has a new listing inactive with short
texts, or active with nothing left to do. -/
theorem keepsIndex_iff (h : Filed dp) (hready : Ready dp) (hindexed : Indexed dp) :
    ActivatesNew env dp m ∧ Indexed (updateNXTorrentState env dp m) ↔ Plainly env dp m := by
  unfold ActivatesNew Plainly
  cases hl : m.listing env with
  | none => simp [indexed_update_of_none hindexed hl]
  | some l =>
    rw [update_of_listing hl, indexed_listMessage_iff h hready hindexed]
    simp only [Option.mem_def, Option.some.injEq, forall_eq']
    by_cases hnone : dp.listings (storeKey 64 l.listingid) = none
    · by_cases hvalid : ValidKey 64 l.listingid
      · have hkey := storeKey_of_valid hvalid.1 hvalid.2
        have hget : getListingid dp l.listingid = none := by rwa [hkey] at hnone
        have hstored : getListingid (listMessage dp l m.amTxidbits) l.listingid = some dp.lps.next := by
          rw [listMessage_new hnone]
          exact (congrFun (listings_activate _) _).trans (newListing_listings hnone hvalid)
        have hlp : (listMessage dp l m.amTxidbits).lp dp.lps.next =
            { activated l with listingAMbits := m.amTxidbits } := by
          rw [listMessage_new hnone, lp_modifyLp, if_pos rfl, lp_activate, if_pos rfl, lp_newListing hnone, if_pos rfl]
        simp only [hvalid, hget, hnone, hstored, Option.some.injEq, exists_eq_left', hlp, true_imp_iff, if_true,
          searchable_listMessage_iff h hnone, activated_iff]
        rw [and_iff_left_iff_imp]
        rintro (⟨hinactive, hshort⟩ | ⟨hactive, -, hbare⟩)
        · exact ⟨fun _ => hshort, fun hactive => absurd (hinactive.symm.trans hactive) (by decide)⟩
        · exact ⟨fun hinactive => absurd (hinactive.symm.trans hactive) (by decide), fun _ => hbare⟩
      · simp [hvalid, hnone]
    · have hget : ValidKey 64 l.listingid → getListingid dp l.listingid ≠ none := by
        intro hvalid hget
        rw [storeKey_of_valid hvalid.1 hvalid.2] at hnone
        exact hnone hget
      simp only [hnone, false_imp_iff, and_true, iff_true]
      intro hvalid hget'
      exact absurd hget' (hget hvalid)

/-- **Every step keeps the search tags.** -/
theorem filed_ready_step {e : Event} (h : Filed dp) (hready : Ready dp) (hstep : step env dp e = some dp') :
    Filed dp' ∧ Ready dp' := by
  have hframed (hframe : Frame dp dp') : Filed dp' ∧ Ready dp' := ⟨hframe.filed h, hframe.ready hready⟩
  have hmade (l : NXTorrentListing) (hnone : dp.listings (storeKey 64 l.listingid) = none) (hshort : Short l)
      (hframe : Frame (newListing dp l) dp') : Filed dp' ∧ Ready dp' :=
    ⟨hframe.filed (filed_newListing h hnone), hframe.ready (ready_newListing hready hnone hshort)⟩
  cases e with
  | message m =>
    obtain rfl := Option.some.inj hstep
    cases hl : m.listing env with
    | some l =>
      rw [update_of_listing hl]
      exact ⟨filed_listMessage h _, ready_listMessage hready _⟩
    | none =>
      rcases @update_of_none env dp m hl with hsame | hreply
      · rw [hsame]
        exact ⟨h, hready⟩
      · rw [hreply] at hframed hmade ⊢
        rcases @replyMessage_cases dp m with hframe | ⟨l, hbare, -, hnone, hframe⟩
        · exact hframed hframe
        · exact hmade l hnone hbare.short hframe
  | request q o =>
    obtain ⟨reply, hreply, rfl⟩ := Option.map_eq_some_iff.mp hstep
    rcases frame_runRequest hreply with hframe | ⟨a, -, hnone, hframe⟩
    · exact hframed hframe
    · exact hmade _ hnone (short_listing env o a) hframe
  | listings all =>
    obtain rfl := Option.some.inj hstep
    exact hframed (frame_listingsFunc dp all)
  | status nxtAddr listingid =>
    obtain rfl := Option.some.inj hstep
    exact hframed (frame_statusFunc dp nxtAddr listingid)
  | tick timestamp =>
    obtain rfl := Option.some.inj hstep
    exact ⟨⟨h.wellformed.step hstep, h.categories, h.tags⟩, hready⟩

end

theorem filed_empty : Filed {} where
  wellformed := wellformed_empty
  categories _ hkey := absurd rfl hkey
  tags _ hkey := absurd rfl hkey

theorem ready_empty : Ready {} := fun r hr => by cases hr

/-- New listings are activated, and the index is right after every step. -/
def KeepsIndex (env : Env) (dp : NXTorrentInfo) (e : Event) : Prop :=
  onMessage (ActivatesNew env) dp e ∧ ∀ dp' ∈ step env dp e, Indexed dp'

theorem indexed_empty : Indexed {} := by
  intro r hr
  cases hr

/-- **New listings are activated and active ones are indexed in a run** exactly when no message makes one
that is not inactive already, or has a text that is too long: the status and the texts are taken from the
message. -/
theorem along_keepsIndex_iff (env : Env) (es : List Event) :
    Run.Along (step env) (KeepsIndex env) {} es ↔ Run.Along (step env) (onMessage (Plainly env)) {} es := by
  have hempty : Filed {} ∧ Ready {} ∧ Indexed {} := ⟨filed_empty, ready_empty, indexed_empty⟩
  apply Run.along_congr (fun dp => Filed dp ∧ Ready dp ∧ Indexed dp) _ _ hempty
  · rintro dp e ⟨hfiled, hready, hindexed⟩
    unfold KeepsIndex
    cases e with
    | message m =>
      simp only [step, Option.mem_def, Option.some.injEq, forall_eq']
      exact keepsIndex_iff hfiled hready hindexed
    | request q o =>
      refine ⟨fun _ => trivial, fun _ => ⟨trivial, fun dp' hstep => ?_⟩⟩
      obtain ⟨reply, hreply, rfl⟩ := Option.map_eq_some_iff.mp hstep
      rcases frame_runRequest hreply with hframe | ⟨a, -, hnone, hframe⟩
      · exact hframe.indexed hindexed
      · exact hframe.indexed (indexed_newListing hindexed hnone (by show nxtorrentInactive ≠ _; decide))
    | listings all =>
      refine ⟨fun _ => trivial, fun _ => ⟨trivial, fun dp' hstep => ?_⟩⟩
      obtain rfl := Option.some.inj hstep
      exact (frame_listingsFunc dp all).indexed hindexed
    | status nxtAddr listingid =>
      refine ⟨fun _ => trivial, fun _ => ⟨trivial, fun dp' hstep => ?_⟩⟩
      obtain rfl := Option.some.inj hstep
      exact (frame_statusFunc dp nxtAddr listingid).indexed hindexed
    | tick timestamp =>
      refine ⟨fun _ => trivial, fun _ => ⟨trivial, fun dp' hstep => ?_⟩⟩
      obtain rfl := Option.some.inj hstep
      exact hindexed
  · rintro dp e dp' ⟨hfiled, hready, -⟩ ⟨-, hkeeps⟩ hstep
    obtain ⟨hfiled', hready'⟩ := filed_ready_step hfiled hready hstep
    exact ⟨hfiled', hready', hkeeps dp' hstep⟩

/-- A `LIST` message for a listing that says it is active. -/
def activeListing1 : AMmessage := { listing1 "7" with
  argjson := some (.object
    [ ("seller".toList, .string "7".toList),
      ("listingid".toList, .string "1".toList),
      ("category1".toList, .string "books".toList),
      ("status".toList, .string "active listing".toList) ]) }

/-- It is active, and not found under its category. -/
theorem not_forall_keepsIndex :
    ¬ ∀ (env : Env) (es : List Event), Run.Along (step env) (KeepsIndex env) {} es := by
  intro h
  obtain ⟨⟨-, hindexed⟩, -⟩ := h wholeEnv [.message activeListing1]
  exact absurd (hindexed _ rfl) (by decide +kernel)

end NXTServices.Torrent
