import NXTServices.Torrent.Listing

/-!
# Arbitrary messages about listings: `update_NXTorrent_state` of `NXTorrent.h`

* `AMmessage` : the arguments that `process_NXTorrent_AM` hands on;
* `listMessage`, `reply` : a `LIST` message, and what the others do to their listing;
* `updateNXTorrentState` : the function;
* `Wellformed` : what every message keeps of the tables;
* `lp_update` : what a message does to the listings that are stored.
-/

namespace NXTServices.Torrent
open Json hiding null true false
open Hashtable (storeKey storeKey_of_valid ValidKey)

/-! ## The function -/

def nxtorrentList : Int := 'L'.toNat
def nxtorrentFeedback : Int := 'F'.toNat
def nxtorrentCancel : Int := 'X'.toNat
def nxtorrentMakeoffer : Int := 'O'.toNat
def nxtorrentAccept : Int := 'A'.toNat

structure AMmessage where
  funcid : Int
  rating : Int
  argjson : Option Json
  listingbits : BitVec 64
  sender : Text
  receiver : Text
  amTxidbits : BitVec 64

def AMmessage.senderbits (m : AMmessage) : BitVec 64 := calcNxt64bits m.sender

def AMmessage.receiverbits (m : AMmessage) : BitVec 64 := calcNxt64bits m.receiver

/-- An inactive listing becomes active. -/
def activated (l : NXTorrentListing) : NXTorrentListing :=
  if l.status = nxtorrentInactive then
    { l with expiration := l.listedtime + l.duration, status := nxtorrentActive }
  else l

/-- The same, with its tags. -/
def activate (dp : NXTorrentInfo) (r : Nat) : NXTorrentInfo :=
  let l := dp.lp r
  if l.status = nxtorrentInactive then
    { dp.modifyLp r activated with
      categories := addSearchTags dp.categories l.category r
      tags := addSearchTags dp.tags l.tag r }
  else dp

def listMessage (dp : NXTorrentInfo) (l : NXTorrentListing) (amTxidbits : BitVec 64) : NXTorrentInfo :=
  let (r, created, dp) := addListing dp l.listingid
  let dp := if created then storeListing dp r l else dp
  (activate dp r).modifyLp r fun l => { l with listingAMbits := amTxidbits }

/-- The rating of a message, within bounds. -/
def clampRating (rating : Int) : Int :=
  if maxNXTorrentRating < rating then maxNXTorrentRating
  else if rating < -maxNXTorrentRating then -maxNXTorrentRating
  else rating

/-- The rating that a message gives; the text stays when the message has none. -/
def AMmessage.feedback (m : AMmessage) (fb : Feedback) : Feedback where
  rating := clampRating m.rating
  about := match m.argjson with
    | none => fb.about
    | some argjson => some (cJSONPrint argjson)

/-- Does the seller write to the buyer? -/
def AMmessage.toBuyer (m : AMmessage) (l : NXTorrentListing) : Prop :=
  m.senderbits = l.seller64bits ∧ m.receiverbits = l.buyer64bits
deriving Decidable

def AMmessage.toSeller (m : AMmessage) (l : NXTorrentListing) : Prop :=
  m.senderbits = l.buyer64bits ∧ m.receiverbits = l.seller64bits
deriving Decidable

/-- What a message that is no `LIST` does to its listing. -/
def reply (m : AMmessage) (l : NXTorrentListing) : NXTorrentListing :=
  if m.funcid = nxtorrentCancel then { l with status := nxtorrentCancelled }
  else if m.funcid = nxtorrentMakeoffer then { l with status := nxtorrentOffered, buyer64bits := m.senderbits }
  else if m.funcid = nxtorrentAccept then { l with buyer64bits := m.receiverbits, status := nxtorrentAccepted }
  else if m.funcid = nxtorrentFeedback then
    if m.toBuyer l then { l with feedbackBuyer := m.feedback l.feedbackBuyer }
    else if m.toSeller l then { l with feedbackSeller := m.feedback l.feedbackSeller }
    else l
  else l

/-- The feedback is listed for the account it is about. -/
def replyFeedbacks (dp : NXTorrentInfo) (m : AMmessage) (l : NXTorrentListing) : NXTorrentInfo :=
  let raw (other64bits : BitVec 64) : Rawfeedback :=
    { other64bits := other64bits, rawrating := clampRating m.rating, timestamp := dp.timestamp }
  if m.funcid = nxtorrentFeedback then
    if m.toBuyer l then
      { dp with buyers := updateNXTorrentFeedback dp.buyers (expandNxt64bits l.buyer64bits) (raw l.seller64bits) }
    else if m.toSeller l then
      { dp with sellers := updateNXTorrentFeedback dp.sellers (expandNxt64bits l.seller64bits) (raw l.buyer64bits) }
    else dp
  else dp

def replyMessage (dp : NXTorrentInfo) (m : AMmessage) : NXTorrentInfo :=
  -- the call makes the listing when there is none
  let (r, _, dp) := addListing dp (expandNxt64bits m.listingbits)
  (replyFeedbacks dp m (dp.lp r)).modifyLp r (reply m)

def updateNXTorrentState (env : Env) (dp : NXTorrentInfo) (m : AMmessage) : NXTorrentInfo :=
  if m.listingbits = 0#64 then dp
  else if m.funcid = nxtorrentList then
    match m.argjson with
    | some argjson => listMessage dp (decodeNXTorrentJson env argjson) m.amTxidbits
    | none => dp
  else replyMessage dp m

/-- The key that a message asks for. -/
def AMmessage.key (env : Env) (m : AMmessage) : Option Text :=
  if m.listingbits = 0#64 then none
  else if m.funcid = nxtorrentList then
    m.argjson.map fun argjson => storeKey 64 (decodeNXTorrentJson env argjson).listingid
  else some (storeKey 64 (expandNxt64bits m.listingbits))

/-- The record that a message is about, when there is one. -/
def AMmessage.target (env : Env) (dp : NXTorrentInfo) (m : AMmessage) : Option Nat := (m.key env).bind dp.listings

/-- What a message does to the record it is about. -/
def AMmessage.effect (m : AMmessage) (l : NXTorrentListing) : NXTorrentListing :=
  if m.funcid = nxtorrentList then { activated l with listingAMbits := m.amTxidbits } else reply m l

/-- The tables with a listing that is not there yet. -/
def newListing (dp : NXTorrentInfo) (l : NXTorrentListing) : NXTorrentInfo :=
  storeListing (addListing dp l.listingid).2.2 (addListing dp l.listingid).1 l

/-! ## What the tables keep -/

/-- The records are those of the arena, and no tag has one of them twice. -/
structure Wellformed (dp : NXTorrentInfo) : Prop where
  entry : ∀ r ∈ dp.entries, r < dp.lps.next
  listed : ∀ key r, dp.listings key = some r → r ∈ dp.entries
  category : ∀ key, ∀ r ∈ tagged dp.categories key, r ∈ dp.entries
  tag : ∀ key, ∀ r ∈ tagged dp.tags key, r ∈ dp.entries
  nodupCategories : ∀ key, (tagged dp.categories key).Nodup
  nodupTags : ∀ key, (tagged dp.tags key).Nodup

theorem wellformed_empty : Wellformed {} where
  entry := by simp
  listed := by simp [Table.empty]
  category := by simp [tagged, Table.empty]
  tag := by simp [tagged, Table.empty]
  nodupCategories := by simp [tagged, Table.empty]
  nodupTags := by simp [tagged, Table.empty]

section
variable {env : Env} {dp : NXTorrentInfo} {m : AMmessage} {key listingid : Text} {r r' : Nat}

theorem replyFeedbacks_eq (dp : NXTorrentInfo) (m : AMmessage) (l : NXTorrentListing) :
    ∃ buyers sellers, replyFeedbacks dp m l = { dp with buyers := buyers, sellers := sellers } := by
  unfold replyFeedbacks
  dsimp only
  split
  · split
    · exact ⟨_, dp.sellers, rfl⟩
    · split
      · exact ⟨dp.buyers, _, rfl⟩
      · exact ⟨dp.buyers, dp.sellers, rfl⟩
  · exact ⟨dp.buyers, dp.sellers, rfl⟩

theorem Wellformed.next_not_mem (h : Wellformed dp) : dp.lps.next ∉ dp.entries :=
  fun hmem => absurd (h.entry _ hmem) (Nat.lt_irrefl _)

theorem addListing_cases (dp : NXTorrentInfo) (listingid : Text) :
    (∃ r, dp.listings (storeKey 64 listingid) = some r ∧ addListing dp listingid = (r, false, dp)) ∨
      dp.listings (storeKey 64 listingid) = none ∧
        addListing dp listingid = (dp.lps.next, true, { dp with
          listings := Function.update dp.listings (storeKey 64 listingid) (some dp.lps.next)
          entries := dp.entries ++ [dp.lps.next]
          lps := dp.lps.alloc { listingid := storeKey 64 listingid } }) := by
  rcases hkey : dp.listings (storeKey 64 listingid) with _ | r
  · exact .inr ⟨rfl, by simp [addListing, hkey]⟩
  · exact .inl ⟨r, rfl, by simp [addListing, hkey]⟩

section
variable {l : NXTorrentListing} (hnone : dp.listings (storeKey 64 l.listingid) = none)
include hnone

theorem addListing_of_none : addListing dp l.listingid = (dp.lps.next, true, { dp with
    listings := Function.update dp.listings (storeKey 64 l.listingid) (some dp.lps.next)
    entries := dp.entries ++ [dp.lps.next]
    lps := dp.lps.alloc { listingid := storeKey 64 l.listingid } }) := by
  rcases addListing_cases dp l.listingid with ⟨r, hr, -⟩ | ⟨-, heq⟩
  · rw [hnone] at hr
    cases hr
  · exact heq

theorem newListing_listings (hvalid : ValidKey 64 l.listingid) :
    (newListing dp l).listings l.listingid = some dp.lps.next := by
  have hkey : storeKey 64 l.listingid = l.listingid := storeKey_of_valid hvalid.1 hvalid.2
  unfold newListing storeListing
  rw [addListing_of_none hnone]
  simp [hkey]

theorem newListing_listings_of_ne (hkey : key ≠ storeKey 64 l.listingid) :
    (newListing dp l).listings key = dp.listings key := by
  unfold newListing storeListing
  rw [addListing_of_none hnone]
  dsimp only
  split
  · exact Function.update_of_ne hkey _ _
  · rw [Function.update_of_ne hkey, Function.update_of_ne hkey]

theorem newListing_entries : (newListing dp l).entries = dp.entries ++ [dp.lps.next] := by
  unfold newListing storeListing
  rw [addListing_of_none hnone]

theorem newListing_categories : (newListing dp l).categories = dp.categories := by
  unfold newListing storeListing
  rw [addListing_of_none hnone]

theorem newListing_tags : (newListing dp l).tags = dp.tags := by
  unfold newListing storeListing
  rw [addListing_of_none hnone]

theorem listMessage_new (amTxidbits : BitVec 64) : listMessage dp l amTxidbits =
    (activate (newListing dp l) dp.lps.next).modifyLp dp.lps.next fun l => { l with listingAMbits := amTxidbits } := by
  unfold listMessage newListing
  rw [addListing_of_none hnone]
  rfl

end

theorem Wellformed.modifyLp (h : Wellformed dp) (r : Nat) (f : NXTorrentListing → NXTorrentListing) :
    Wellformed (dp.modifyLp r f) :=
  ⟨h.entry, h.listed, h.category, h.tag, h.nodupCategories, h.nodupTags⟩

theorem Wellformed.addListing (h : Wellformed dp) (listingid : Text) : Wellformed (addListing dp listingid).2.2 := by
  rcases addListing_cases dp listingid with ⟨r, -, heq⟩ | ⟨-, heq⟩
  · rw [heq]
    exact h
  · rw [heq]
    refine ⟨fun r hr => ?_, fun key r hr => ?_, fun key r hr => ?_, fun key r hr => ?_, h.nodupCategories, h.nodupTags⟩
    · show r < dp.lps.next + 1
      rcases List.mem_append.mp hr with hr | hr
      · have := h.entry r hr
        omega
      · rw [List.mem_singleton.mp hr]
        omega
    · by_cases hkey : key = storeKey 64 listingid
      · subst hkey
        obtain rfl : dp.lps.next = r := by simpa using hr
        exact List.mem_append_right _ (List.mem_singleton_self _)
      · have hold : dp.listings key = some r := by simpa [hkey] using hr
        exact List.mem_append_left _ (h.listed key r hold)
    · exact List.mem_append_left _ (h.category key r hr)
    · exact List.mem_append_left _ (h.tag key r hr)

theorem Wellformed.storeListing (h : Wellformed dp) (r : Nat) (l : NXTorrentListing) :
    Wellformed (storeListing dp r l) := by
  refine ⟨h.entry, fun key r' hr => ?_, h.category, h.tag, h.nodupCategories, h.nodupTags⟩
  have hr : (if storeKey 64 l.listingid = l.listingid then dp.listings
      else Function.update dp.listings (storeKey 64 l.listingid) none) key = some r' := hr
  split at hr
  · exact h.listed key r' hr
  · by_cases hkey : key = storeKey 64 l.listingid
    · subst hkey
      simp at hr
    · exact h.listed key r' (by simpa [hkey] using hr)

theorem Wellformed.activate (h : Wellformed dp) (hr : r ∈ dp.entries) : Wellformed (activate dp r) := by
  unfold Torrent.activate
  dsimp only
  split
  · refine ⟨h.entry, h.listed, fun key r' hr' => ?_, fun key r' hr' => ?_, nodup_addSearchTags h.nodupCategories,
      nodup_addSearchTags h.nodupTags⟩
    · rcases mem_addSearchTags.mp hr' with hold | ⟨rfl, -⟩
      · exact h.category key r' hold
      · exact hr
    · rcases mem_addSearchTags.mp hr' with hold | ⟨rfl, -⟩
      · exact h.tag key r' hold
      · exact hr
  · exact h

theorem addListing_mem (h : Wellformed dp) (listingid : Text) :
    (addListing dp listingid).1 ∈ (addListing dp listingid).2.2.entries := by
  rcases addListing_cases dp listingid with ⟨r, hr, heq⟩ | ⟨-, heq⟩
  · rw [heq]
    exact h.listed _ r hr
  · rw [heq]
    exact List.mem_append_right _ (List.mem_singleton_self _)

theorem Wellformed.listMessage (h : Wellformed dp) (l : NXTorrentListing) (amTxidbits : BitVec 64) :
    Wellformed (listMessage dp l amTxidbits) := by
  have hadd := h.addListing l.listingid
  have hmem := addListing_mem h l.listingid
  unfold Torrent.listMessage
  generalize Torrent.addListing dp l.listingid = call at hadd hmem ⊢
  obtain ⟨r, created, dp'⟩ := call
  apply Wellformed.modifyLp
  cases created with
  | true => exact (hadd.storeListing r l).activate hmem
  | false => exact hadd.activate hmem

theorem Wellformed.replyMessage (h : Wellformed dp) (m : AMmessage) : Wellformed (replyMessage dp m) := by
  have hadd := h.addListing (expandNxt64bits m.listingbits)
  unfold Torrent.replyMessage
  generalize Torrent.addListing dp (expandNxt64bits m.listingbits) = call at hadd ⊢
  obtain ⟨r, created, dp'⟩ := call
  apply Wellformed.modifyLp
  obtain ⟨buyers, sellers, heq⟩ := replyFeedbacks_eq dp' m (dp'.lp r)
  show Wellformed (replyFeedbacks dp' m (dp'.lp r))
  rw [heq]
  exact ⟨hadd.entry, hadd.listed, hadd.category, hadd.tag, hadd.nodupCategories, hadd.nodupTags⟩

/-- **Every message keeps the tables wellformed.** -/
theorem Wellformed.update (h : Wellformed dp) (env : Env) (m : AMmessage) :
    Wellformed (updateNXTorrentState env dp m) := by
  unfold updateNXTorrentState
  split
  · exact h
  · split
    · split
      · exact h.listMessage _ _
      · exact h
    · exact h.replyMessage m

/-! ## What a message does to a record -/

theorem lp_modifyLp (f : NXTorrentListing → NXTorrentListing) :
    (dp.modifyLp r' f).lp r = if r = r' then f (dp.lp r') else dp.lp r := Arena.modify_cell r

theorem lp_storeListing (l : NXTorrentListing) : (storeListing dp r' l).lp r = if r = r' then l else dp.lp r :=
  Arena.modify_cell (f := fun _ => l) r

theorem lp_newListing {l : NXTorrentListing} (hnone : dp.listings (storeKey 64 l.listingid) = none) :
    (newListing dp l).lp r = if r = dp.lps.next then l else dp.lp r := by
  unfold newListing
  rw [lp_storeListing, addListing_of_none hnone]
  split
  · rfl
  · next hne => exact Arena.alloc_cell_of_ne hne

theorem lp_activate : (activate dp r').lp r = if r = r' then activated (dp.lp r') else dp.lp r := by
  unfold activate
  dsimp only
  split
  · exact lp_modifyLp activated
  · next hstatus =>
    split
    · next heq => rw [heq, activated, if_neg hstatus]
    · rfl

theorem lp_replyFeedbacks (l : NXTorrentListing) : (replyFeedbacks dp m l).lp r = dp.lp r := by
  obtain ⟨buyers, sellers, heq⟩ := replyFeedbacks_eq dp m l
  rw [heq]
  rfl

theorem AMmessage.funcid_cases (m : AMmessage) : m.funcid = nxtorrentList ∨ m.funcid = nxtorrentCancel ∨
    m.funcid = nxtorrentMakeoffer ∨ m.funcid = nxtorrentAccept ∨ m.funcid = nxtorrentFeedback ∨
    m.funcid ∉ [nxtorrentList, nxtorrentCancel, nxtorrentMakeoffer, nxtorrentAccept, nxtorrentFeedback] := by
  by_cases h : m.funcid ∈ [nxtorrentList, nxtorrentCancel, nxtorrentMakeoffer, nxtorrentAccept, nxtorrentFeedback]
  · simp only [List.mem_cons, List.not_mem_nil, or_false] at h
    tauto
  · exact .inr (.inr (.inr (.inr (.inr h))))

section
variable {l : NXTorrentListing}

theorem AMmessage.effect_list (h : m.funcid = nxtorrentList) :
    m.effect l = { activated l with listingAMbits := m.amTxidbits } := if_pos h

theorem AMmessage.effect_cancel (h : m.funcid = nxtorrentCancel) :
    m.effect l = { l with status := nxtorrentCancelled } := by
  unfold AMmessage.effect reply
  rw [h]
  rfl

theorem AMmessage.effect_makeoffer (h : m.funcid = nxtorrentMakeoffer) :
    m.effect l = { l with status := nxtorrentOffered, buyer64bits := m.senderbits } := by
  unfold AMmessage.effect reply
  rw [h]
  rfl

theorem AMmessage.effect_accept (h : m.funcid = nxtorrentAccept) :
    m.effect l = { l with buyer64bits := m.receiverbits, status := nxtorrentAccepted } := by
  unfold AMmessage.effect reply
  rw [h]
  rfl

theorem AMmessage.effect_feedback (h : m.funcid = nxtorrentFeedback) :
    m.effect l = if m.toBuyer l then { l with feedbackBuyer := m.feedback l.feedbackBuyer }
      else if m.toSeller l then { l with feedbackSeller := m.feedback l.feedbackSeller }
      else l := by
  unfold AMmessage.effect reply
  rw [h]
  rfl

theorem AMmessage.effect_other (h : m.funcid ∉
    [nxtorrentList, nxtorrentCancel, nxtorrentMakeoffer, nxtorrentAccept, nxtorrentFeedback]) : m.effect l = l := by
  simp only [List.mem_cons, List.not_mem_nil, or_false, not_or] at h
  unfold AMmessage.effect reply
  rw [if_neg h.1, if_neg h.2.1, if_neg h.2.2.1, if_neg h.2.2.2.1, if_neg h.2.2.2.2]

end

theorem Wellformed.target_mem (h : Wellformed dp) (ht : m.target env dp = some r) : r ∈ dp.entries := by
  obtain ⟨key, -, hr⟩ := Option.bind_eq_some_iff.mp ht
  exact h.listed key r hr

theorem Wellformed.lp_listMessage (h : Wellformed dp) (hr : r ∈ dp.entries) (l : NXTorrentListing)
    (amTxidbits : BitVec 64) :
    (Torrent.listMessage dp l amTxidbits).lp r =
      if dp.listings (storeKey 64 l.listingid) = some r then { activated (dp.lp r) with listingAMbits := amTxidbits }
      else dp.lp r := by
  have hlt := h.entry r hr
  unfold Torrent.listMessage
  rcases addListing_cases dp l.listingid with ⟨r', hr', heq⟩ | ⟨hnone, heq⟩
  · rw [heq, hr', lp_modifyLp, lp_activate, lp_activate]
    by_cases hsame : r = r'
    · simp [hsame]
    · simp [hsame, Ne.symm hsame]
  · rw [heq, hnone, lp_modifyLp, lp_activate]
    simp only [if_true, if_neg (Nat.ne_of_lt hlt), reduceCtorEq, if_false]
    rw [lp_activate, if_neg (Nat.ne_of_lt hlt), lp_storeListing, if_neg (Nat.ne_of_lt hlt)]
    exact Arena.alloc_cell_of_lt hlt

theorem Wellformed.lp_replyMessage (h : Wellformed dp) (hr : r ∈ dp.entries) (m : AMmessage) :
    (Torrent.replyMessage dp m).lp r =
      if dp.listings (storeKey 64 (expandNxt64bits m.listingbits)) = some r then reply m (dp.lp r) else dp.lp r := by
  have hlt := h.entry r hr
  unfold Torrent.replyMessage
  rcases addListing_cases dp (expandNxt64bits m.listingbits) with ⟨r', hr', heq⟩ | ⟨hnone, heq⟩
  · rw [heq, hr', lp_modifyLp, lp_replyFeedbacks, lp_replyFeedbacks]
    by_cases hsame : r = r'
    · simp [hsame]
    · simp [hsame, Ne.symm hsame]
  · rw [heq, hnone, lp_modifyLp, if_neg (Nat.ne_of_lt hlt), lp_replyFeedbacks]
    exact Arena.alloc_cell_of_lt hlt

/-- **A message changes the record it is about**, and no other one that is stored. -/
theorem Wellformed.lp_update (h : Wellformed dp) (hr : r ∈ dp.entries) (env : Env) (m : AMmessage) :
    (updateNXTorrentState env dp m).lp r =
      if m.target env dp = some r then m.effect (dp.lp r) else dp.lp r := by
  unfold updateNXTorrentState AMmessage.target AMmessage.key AMmessage.effect
  by_cases hbits : m.listingbits = 0#64
  · simp [hbits]
  · by_cases hlist : m.funcid = nxtorrentList
    · simp only [hbits, hlist, if_false, if_true]
      cases m.argjson with
      | none => rfl
      | some argjson => exact h.lp_listMessage hr _ _
    · simp only [hbits, hlist, if_false]
      exact h.lp_replyMessage hr m

theorem Wellformed.forall_lp_update (h : Wellformed dp) {P : NXTorrentListing → NXTorrentListing → Prop}
    (hrefl : ∀ l, P l l) (env : Env) (m : AMmessage) :
    (∀ r ∈ dp.entries, P (dp.lp r) ((updateNXTorrentState env dp m).lp r)) ↔
      ∀ r, m.target env dp = some r → P (dp.lp r) (m.effect (dp.lp r)) := by
  constructor
  · intro hall r ht
    have := hall r (h.target_mem ht)
    rwa [h.lp_update (h.target_mem ht), if_pos ht] at this
  · intro htarget r hr
    rw [h.lp_update hr]
    split
    · next ht => exact htarget r ht
    · exact hrefl _

end

end NXTServices.Torrent
