import NXTServices.Hashtable
import NXTServices.Lib.Arena

/-!
# The listings of `NXTorrent.h`

* `NXTorrentListing`, `NXTorrentInfo` : the records and the tables that find them;
* `addListing`, `storeListing`, `getListingid` : the calls on the table of listings;
* `addSearchTag`, `found` : the index of a category or a tag, and what it has under a key;
* `updateNXTorrentFeedback` : the feedbacks of an account;
* `mem_addSearchTags`, `nodup_addSearchTags` : what is listed under a key, and that it is listed once.

A record is told by its address in `lps`. The averages that `update_NXTorrent_feedback` keeps in the
accounts are left out, and so are the pointers from a listing to its tags: nothing here reads them.
-/

namespace NXTServices.Torrent

/-! ## Status values -/

def nxtorrentInactive : Int := 0
def nxtorrentActive : Int := 1
def nxtorrentCancelled : Int := 2
def nxtorrentOffered : Int := 3
def nxtorrentAccepted : Int := 4
def nxtorrentCompleted : Int := 7
def nxtorrentExpired : Int := 8

def maxNXTorrentRating : Int := 100

/-- The `switch` is on `status & 7`. -/
def nxtorrentStatusStr (status : Int) : Text :=
  match status % 8 with
  | 0 => "inactive listing".toList
  | 1 => "active listing".toList
  | 2 => "cancelled listing".toList
  | 3 => "offer pending".toList
  | 4 => "offer accepted".toList
  | 5 => "goods in transit".toList
  | 6 => "disputed listing".toList
  | 8 => "expired listing".toList
  | 7 => "completed listing".toList
  | _ => "invalid listingid".toList

/-- The first of the nine status values with this text, or `-1`. -/
def convStatusStr (str : Text) : Int :=
  match (List.range 9).find? fun i => nxtorrentStatusStr i == str with
  | some i => i
  | none => -1

/-! ## Records -/

/-- `struct _NXTorrent_feedback`. -/
structure Feedback where
  rating : Int := 0
  about : Option Text := none
deriving DecidableEq

structure NXTorrentListing where
  seller64bits : BitVec 64 := 0#64
  buyer64bits : BitVec 64 := 0#64
  listing64bits : BitVec 64 := 0#64
  assetidbits : BitVec 64 := 0#64
  price : Int := 0
  amount : Int := 0
  coinid : Int := 0
  duration : Int := 0
  category : List Text := [[], [], []]
  tag : List Text := [[], [], []]
  coinaddr : Text := []
  listingid : Text := []
  title : Text := []
  descr : Option Text := none
  uri : Option Text := none
  status : Int := 0
  listedtime : Int := 0
  expiration : Int := 0
  listingAMbits : BitVec 64 := 0#64
  feedbackSeller : Feedback := {}
  feedbackBuyer : Feedback := {}
deriving DecidableEq

structure Rawfeedback where
  other64bits : BitVec 64
  rawrating : Int
  timestamp : Int
deriving DecidableEq

/-- `entries` are the records in the table of listings, the oldest one first; `listings` finds those whose
key is still that of their slot. A search tag is the list of its records. -/
structure NXTorrentInfo where
  listings : Table Nat := Table.empty
  entries : List Nat := []
  lps : Arena NXTorrentListing := { cell := fun _ => {} }
  categories : Table (List Nat) := Table.empty
  tags : Table (List Nat) := Table.empty
  buyers : Table (List Rawfeedback) := Table.empty
  sellers : Table (List Rawfeedback) := Table.empty
  timestamp : Int := 0

namespace NXTorrentInfo

def lp (dp : NXTorrentInfo) (r : Nat) : NXTorrentListing := dp.lps.cell r

def modifyLp (dp : NXTorrentInfo) (r : Nat) (f : NXTorrentListing → NXTorrentListing) : NXTorrentInfo :=
  { dp with lps := dp.lps.modify r f }

end NXTorrentInfo

open Hashtable (storeKey storeKey_of_valid storeKey_valid ValidKey)

/-! ## The calls on the tables -/

/-- `MTadd_hashtable` on the listings: the record, and `createdflag`. -/
def addListing (dp : NXTorrentInfo) (listingid : Text) : Nat × Bool × NXTorrentInfo :=
  let key := storeKey 64 listingid
  match dp.listings key with
  | some r => (r, false, dp)
  | none =>
    (dp.lps.next, true, { dp with
      listings := Function.update dp.listings key (some dp.lps.next)
      entries := dp.entries ++ [dp.lps.next]
      lps := dp.lps.alloc { listingid := key } })

/-- `*lp = L` on a record that has just been made. The copy overwrites the key too, so that a record made
for a key that did not fit is not found any more. -/
def storeListing (dp : NXTorrentInfo) (r : Nat) (l : NXTorrentListing) : NXTorrentInfo :=
  let key := storeKey 64 l.listingid
  { dp with
    listings := if key = l.listingid then dp.listings else Function.update dp.listings key none
    lps := dp.lps.modify r fun _ => l }

def getListingid (dp : NXTorrentInfo) (listingid : Text) : Option Nat := dp.listings listingid

/-- The records of the search tag that a call for the key works on. -/
def tagged (table : Table (List Nat)) (key : Text) : List Nat := (table (storeKey 16 key)).getD []

/-- The records of the search tag with this key, none when there is no such tag. -/
def found (table : Table (List Nat)) (key : Text) : List Nat := (table key).getD []

/-- The search tags have keys that a call can make. -/
def Fits (table : Table (List Nat)) : Prop := ∀ key, table key ≠ none → ValidKey 16 key

def addSearchTag (table : Table (List Nat)) (key : Text) (r : Nat) : Table (List Nat) :=
  if key = [] then table
  else
    let tag := table.add 16 key []
    if r ∈ tagged table key then tag.table else tag.table.modify tag.key (· ++ [r])

def updateNXTorrentFeedback (table : Table (List Rawfeedback)) (nxtAddr : Text) (raw : Rawfeedback) :
    Table (List Rawfeedback) :=
  if nxtAddr = [] then table
  else
    let fb := table.add 24 nxtAddr []
    fb.table.modify fb.key (· ++ [raw])

/-- The record is listed under each of the texts that is not empty. -/
def addSearchTags (table : Table (List Nat)) (keys : List Text) (r : Nat) : Table (List Nat) :=
  keys.foldl (fun table key => addSearchTag table key r) table

section
variable {table : Table (List Nat)} {key key' : Text} {keys : List Text} {r r' : Nat}

theorem tagged_add : tagged (table.add 16 key []).table key' = tagged table key' := by
  unfold tagged
  cases hkey : table (storeKey 16 key) with
  | some rs => rw [Table.add_table_of_some hkey]
  | none =>
    rw [Table.add_table_of_none hkey]
    by_cases hsame : storeKey 16 key' = storeKey 16 key
    · rw [hsame, Function.update_self, hkey]
      rfl
    · rw [Function.update_of_ne hsame]

theorem tagged_addSearchTag : tagged (addSearchTag table key r) key' =
    if key ≠ [] ∧ storeKey 16 key' = storeKey 16 key ∧ r ∉ tagged table key then tagged table key ++ [r]
    else tagged table key' := by
  unfold addSearchTag
  by_cases hkey : key = []
  · simp [hkey]
  · rw [if_neg hkey]
    by_cases hr : r ∈ tagged table key
    · simp only [hr, if_true, not_true, and_false, if_false]
      exact tagged_add
    · simp only [hr, if_false, hkey, ne_eq, not_false_eq_true, true_and, and_true]
      by_cases hsame : storeKey 16 key' = storeKey 16 key
      · rw [if_pos hsame]
        have htag : ((table.add 16 key []).table (storeKey 16 key)).isSome := by
          cases hsome : table (storeKey 16 key) with
          | some rs => rw [Table.add_table_of_some hsome, hsome]; rfl
          | none => rw [Table.add_table_of_none hsome, Function.update_self]; rfl
        obtain ⟨rs, hrs⟩ := Option.isSome_iff_exists.mp htag
        have hold : tagged table key = rs := by
          have hadd : tagged (table.add 16 key []).table key = tagged table key := tagged_add
          exact hadd.symm.trans (congrArg (·.getD []) hrs)
        unfold tagged
        rw [hsame, Table.add_key, Table.modify_self, hrs, Option.map_some, Option.getD_some]
        exact congrArg (· ++ [r]) hold.symm
      · have hadd : tagged (table.add 16 key []).table key' = tagged table key' := tagged_add
        rw [if_neg hsame, ← hadd]
        unfold tagged
        rw [Table.add_key, Table.modify_of_ne _ _ hsame]

theorem tagged_congr (h : storeKey 16 key' = storeKey 16 key) : tagged table key' = tagged table key := by
  unfold tagged
  rw [h]

theorem mem_addSearchTag : r' ∈ tagged (addSearchTag table key r) key' ↔
    r' ∈ tagged table key' ∨ r' = r ∧ key ≠ [] ∧ storeKey 16 key' = storeKey 16 key := by
  rw [tagged_addSearchTag]
  split
  · next h =>
    rw [List.mem_append, List.mem_singleton, tagged_congr h.2.1]
    simp [h.1, h.2.1]
  · next h =>
    constructor
    · exact .inl
    · rintro (hmem | ⟨rfl, hkey, hsame⟩)
      · exact hmem
      · rw [tagged_congr hsame]
        by_contra hmem
        exact h ⟨hkey, hsame, hmem⟩

theorem nodup_addSearchTag (h : ∀ key, (tagged table key).Nodup) (key' : Text) :
    (tagged (addSearchTag table key r) key').Nodup := by
  rw [tagged_addSearchTag]
  split
  · next hnew =>
    apply (h key).append (List.nodup_singleton r)
    intro r' hmem hr'
    obtain rfl := List.mem_singleton.mp hr'
    exact hnew.2.2 hmem
  · exact h key'

theorem mem_addSearchTags : r' ∈ tagged (addSearchTags table keys r) key' ↔
    r' ∈ tagged table key' ∨ r' = r ∧ ∃ key ∈ keys, key ≠ [] ∧ storeKey 16 key' = storeKey 16 key := by
  induction keys generalizing table with
  | nil => simp [addSearchTags]
  | cons key keys ih =>
    show r' ∈ tagged (addSearchTags (addSearchTag table key r) keys r) key' ↔ _
    rw [ih, mem_addSearchTag, or_assoc, ← and_or_left, List.exists_mem_cons_iff]

theorem nodup_addSearchTags (h : ∀ key, (tagged table key).Nodup) (key' : Text) :
    (tagged (addSearchTags table keys r) key').Nodup := by
  induction keys generalizing table with
  | nil => exact h key'
  | cons key keys ih => exact ih (nodup_addSearchTag h)

/-! A key that does not fit is found nowhere. -/

theorem found_of_valid (h : ValidKey 16 key) : found table key = tagged table key := by
  unfold found tagged
  rw [storeKey_of_valid h.1 h.2]

theorem found_storeKey : found table (storeKey 16 key) = tagged table key := rfl

theorem Fits.valid_of_mem (h : Fits table) (hr : r ∈ found table key) : ValidKey 16 key := by
  apply h
  intro hnone
  unfold found at hr
  rw [hnone] at hr
  cases hr

theorem addSearchTag_of_ne (hkey : key' ≠ storeKey 16 key) : addSearchTag table key r key' = table key' := by
  have hadd : (table.add 16 key []).table key' = table key' := by
    cases hsome : table (storeKey 16 key) with
    | some rs => rw [Table.add_table_of_some hsome]
    | none => rw [Table.add_table_of_none hsome, Function.update_of_ne hkey]
  unfold addSearchTag
  split
  · rfl
  · dsimp only
    split
    · exact hadd
    · rw [Table.add_key, Table.modify_of_ne _ _ hkey, hadd]

theorem mem_found_addSearchTag : r' ∈ found (addSearchTag table key r) key' ↔
    r' ∈ found table key' ∨ r' = r ∧ key ≠ [] ∧ key' = storeKey 16 key := by
  by_cases hkey : key' = storeKey 16 key
  · rw [hkey, found_storeKey, found_storeKey, mem_addSearchTag]
  · unfold found
    rw [addSearchTag_of_ne hkey]
    simp only [hkey, and_false, or_false]

theorem mem_found_addSearchTags : r' ∈ found (addSearchTags table keys r) key' ↔
    r' ∈ found table key' ∨ r' = r ∧ ∃ key ∈ keys, key ≠ [] ∧ key' = storeKey 16 key := by
  induction keys generalizing table with
  | nil => simp [addSearchTags]
  | cons key keys ih =>
    show r' ∈ found (addSearchTags (addSearchTag table key r) keys r) key' ↔ _
    rw [ih, mem_found_addSearchTag, or_assoc, ← and_or_left, List.exists_mem_cons_iff]

theorem Fits.addSearchTags (h : Fits table) (keys : List Text) (r : Nat) : Fits (addSearchTags table keys r) := by
  induction keys generalizing table with
  | nil => exact h
  | cons key keys ih =>
    apply ih
    intro key' hkey'
    change addSearchTag table key r key' ≠ none at hkey'
    by_cases hkey : key' = storeKey 16 key
    · rw [hkey]
      exact storeKey_valid (by decide) key
    · rw [addSearchTag_of_ne hkey] at hkey'
      exact h key' hkey'

end

end NXTServices.Torrent
