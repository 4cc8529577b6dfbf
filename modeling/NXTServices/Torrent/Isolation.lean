import NXTServices.Lib.Unwinding
import NXTServices.Torrent.Listingid
import NXTServices.Torrent.Terms

/-!
# Listings do not see each other

* `stored` : the listing under a key;
* `Keyed` : a record has the key under which it is found, so that two keys have two records;
* `stored_update`, `sameReply_runRequest` : what a message or a command does is decided by the listing it is about;
* `unwinds_stored` : the listing under a key is a view of the tables;
* `listing_isolated` : **what happens to a listing**, and what is answered about it, is what its own events make.
-/

namespace NXTServices.Torrent
open Hashtable (storeKey ValidKey)
open Unwinding (Unwinds answers)

/-- The listing that a key finds. -/
def stored (dp : NXTorrentInfo) (key : Text) : Option NXTorrentListing := (dp.listings key).map dp.lp

/-- A record has the key of its slot. -/
def Keyed (dp : NXTorrentInfo) : Prop := ∀ key r, dp.listings key = some r → (dp.lp r).listingid = key

/-- What a message about an unknown listing starts from. -/
def AMmessage.made (env : Env) (m : AMmessage) : NXTorrentListing :=
  (m.listing env).getD { listingid := storeKey 64 (expandNxt64bits m.listingbits) }

/-- The key of the listing that a command is about. -/
def Request.key (env : Env) (o : Outside) : Request → Text
  | .list a => storeKey 64 (a.listing env o).listingid
  | .cancel _ listingid | .makeoffer _ listingid _ _ | .acceptoffer _ listingid _ _ => listingid
  | .feedback _ listingid _ _ _ => listingid

/-- The event is about the listing of the key. A message or a list command with an empty id, or with one of 64
characters or more, is about `123456`. -/
def About (env : Env) (key : Text) : Event → Prop
  | .message m => m.key env = some key
  | .request q o => q.key env o = key
  | .listings _ | .status _ _ | .tick _ => False

instance (env : Env) (key : Text) : DecidablePred (About env key)
  | .message m => inferInstanceAs (Decidable (m.key env = some key))
  | .request q o => inferInstanceAs (Decidable (q.key env o = key))
  | .listings _ | .status _ _ | .tick _ => .isFalse id

/-- Nobody looks at all listings, which would let the first ones expire. -/
def Unlisted : Event → Prop
  | .listings _ => False
  | _ => True

instance : DecidablePred Unlisted
  | .listings _ => .isFalse id
  | .message _ | .request _ _ | .status _ _ | .tick _ => .isTrue trivial

/-- What a client sees of its command: the message that is submitted and the answer, `none` where the program fails. -/
def answer (env : Env) (dp : NXTorrentInfo) : Event → Option (Option AMcall × Text)
  | .request q o => (runRequest env o dp q).map fun reply => (reply.call, reply.retstr)
  | _ => none

section
variable {env : Env} {o : Outside} {dp dp' : NXTorrentInfo} {m : AMmessage} {l : NXTorrentListing} {key key' : Text}
  {r r' : Nat}

/-! ## Records and keys -/

theorem stored_of_some (h : dp.listings key = some r) : stored dp key = some (dp.lp r) := by
  unfold stored
  rw [h, Option.map_some]

theorem stored_of_none (h : dp.listings key = none) : stored dp key = none := by
  unfold stored
  rw [h, Option.map_none]

theorem stored_cases (h : stored dp key = stored dp' key) : dp.listings key = none ∧ dp'.listings key = none ∨
    ∃ r r', dp.listings key = some r ∧ dp'.listings key = some r' ∧ dp'.lp r' = dp.lp r := by
  unfold stored at h
  cases hr : dp.listings key with
  | none =>
    rw [hr, Option.map_none, eq_comm, Option.map_eq_none_iff] at h
    exact .inl ⟨rfl, h⟩
  | some r =>
    rw [hr, Option.map_some, eq_comm, Option.map_eq_some_iff] at h
    obtain ⟨r', hr', hlp⟩ := h
    exact .inr ⟨r, r', rfl, hr', hlp⟩

theorem Keyed.inj (h : Keyed dp) (hr : dp.listings key = some r) (hr' : dp.listings key' = some r) : key = key' :=
  (h key r hr).symm.trans (h key' r hr')

theorem Frame.keyed (h : Frame dp dp') (hid : ∀ r, (dp'.lp r).listingid = (dp.lp r).listingid) (hkeyed : Keyed dp) :
    Keyed dp' := by
  intro key r hr
  rw [hid]
  exact hkeyed key r (h.listings ▸ hr)

theorem newListing_key (hnone : dp.listings (storeKey 64 l.listingid) = none)
    (hfits : storeKey 64 l.listingid = l.listingid) :
    (newListing dp l).listings (storeKey 64 l.listingid) = some dp.lps.next := by
  unfold newListing storeListing
  rw [addListing_of_none hnone]
  dsimp only
  rw [if_pos hfits, Function.update_self]

theorem keyed_newListing (h : Keyed dp) (hwf : Wellformed dp) (hnone : dp.listings (storeKey 64 l.listingid) = none) :
    Keyed (newListing dp l) := by
  intro key r hr
  rw [lp_newListing hnone]
  by_cases hkey : key = storeKey 64 l.listingid
  · subst hkey
    by_cases hfits : storeKey 64 l.listingid = l.listingid
    · rw [newListing_key hnone hfits] at hr
      obtain rfl := Option.some.inj hr
      rw [if_pos rfl, hfits]
    · rw [newListing_listings_none hnone hfits] at hr
      cases hr
  · rw [newListing_listings_of_ne hnone hkey] at hr
    have hne : r ≠ dp.lps.next := fun heq => hwf.next_not_mem (heq ▸ hwf.listed key r hr)
    rw [if_neg hne]
    exact h key r hr

/-- The new listing, unless its key does not fit. -/
theorem stored_newListing (hnone : dp.listings (storeKey 64 l.listingid) = none) :
    stored (newListing dp l) (storeKey 64 l.listingid) =
    if storeKey 64 l.listingid = l.listingid then some l else none := by
  by_cases hfits : storeKey 64 l.listingid = l.listingid
  · rw [if_pos hfits, stored_of_some (newListing_key hnone hfits), lp_newListing hnone, if_pos rfl]
  · rw [if_neg hfits, stored_of_none (newListing_listings_none hnone hfits)]

theorem addListing_eq_newListing (hnone : dp.listings (storeKey 64 key) = none) :
    (addListing dp key).2.2 = newListing dp { listingid := storeKey 64 key } := by
  have hkey : storeKey 64 (storeKey 64 key) = storeKey 64 key := Hashtable.storeKey_storeKey (by decide) key
  have hadd : addListing dp key = addListing dp (storeKey 64 key) := by
    unfold addListing
    rw [hkey]
  rw [hadd]
  unfold newListing storeListing
  rw [addListing_of_none (l := { listingid := storeKey 64 key }) (by rwa [hkey])]
  simp only [hkey, if_true, Arena.alloc_modify]

/-! ## Messages -/

theorem effect_listingid (m : AMmessage) (l : NXTorrentListing) : (m.effect l).listingid = l.listingid :=
  listingid_of_terms (terms_effect m l)

/-- A message has a key when it is about the listing that it brings, or about another one. -/
theorem key_cases (h : m.key env = some key) : (∃ l, m.listing env = some l ∧ storeKey 64 l.listingid = key) ∨
    m.listing env = none ∧ m.listingbits ≠ 0#64 ∧ m.funcid ≠ nxtorrentList ∧
      storeKey 64 (expandNxt64bits m.listingbits) = key := by
  unfold AMmessage.key at h
  by_cases hbits : m.listingbits = 0#64
  · rw [if_pos hbits] at h
    cases h
  · rw [if_neg hbits] at h
    by_cases hlist : m.funcid = nxtorrentList
    · rw [if_pos hlist] at h
      obtain ⟨argjson, hargjson, hkey⟩ := Option.map_eq_some_iff.mp h
      refine .inl ⟨decodeNXTorrentJson env argjson, ?_, hkey⟩
      unfold AMmessage.listing
      rw [if_neg (by simp [hbits, hlist]), hargjson, Option.map_some]
    · rw [if_neg hlist] at h
      exact .inr ⟨if_pos (.inr hlist), hbits, hlist, Option.some.inj h⟩

theorem made_key (h : m.key env = some key) : storeKey 64 (m.made env).listingid = key := by
  unfold AMmessage.made
  rcases key_cases h with ⟨l, hl, hkey⟩ | ⟨hnone, -, -, hkey⟩
  · rw [hl]
    exact hkey
  · rw [hnone]
    show storeKey 64 (storeKey 64 _) = key
    rw [Hashtable.storeKey_storeKey (by decide), hkey]

/-- A message about an unknown listing makes it. -/
theorem update_new (h : m.key env = some key) (hnone : dp.listings key = none) :
    (updateNXTorrentState env dp m).listings = (newListing dp (m.made env)).listings ∧
      ∀ r, (updateNXTorrentState env dp m).lp r = if r = dp.lps.next then m.effect (m.made env) else dp.lp r := by
  have hmade := made_key h
  have hnew : dp.listings (storeKey 64 (m.made env).listingid) = none := by rwa [hmade]
  have hlp (r : Nat) := @lp_newListing dp r _ hnew
  unfold AMmessage.made at hmade hnew hlp ⊢
  rcases key_cases h with ⟨l, hl, hkey⟩ | ⟨hother, hbits, hlist, hkey⟩
  · rw [hl, Option.getD_some] at hnew hlp ⊢
    have hfuncid : m.funcid = nxtorrentList := by
      by_contra hne
      unfold AMmessage.listing at hl
      rw [if_pos (.inr hne)] at hl
      cases hl
    rw [update_of_listing hl, listMessage_new hnew, AMmessage.effect_list hfuncid]
    refine ⟨listings_activate _, fun r => ?_⟩
    rw [lp_modifyLp, lp_activate, lp_activate, hlp, hlp, if_pos rfl, if_pos rfl]
    by_cases hr : r = dp.lps.next
    · rw [if_pos hr, if_pos hr]
    · rw [if_neg hr, if_neg hr, if_neg hr, if_neg hr]
  · rw [hother, Option.getD_none] at hnew hlp ⊢
    have hupdate : updateNXTorrentState env dp m = replyMessage dp m := by
      unfold updateNXTorrentState
      rw [if_neg hbits, if_neg hlist]
    have hadd := @addListing_eq_newListing dp (expandNxt64bits m.listingbits) (by rwa [hkey])
    have hfst : (addListing dp (expandNxt64bits m.listingbits)).1 = dp.lps.next := by
      rcases addListing_cases dp (expandNxt64bits m.listingbits) with ⟨r, hr, -⟩ | ⟨-, heq⟩
      · rw [hkey, hnone] at hr
        cases hr
      · rw [heq]
    rw [hupdate]
    unfold replyMessage AMmessage.effect
    dsimp only
    rw [hadd, hfst, if_neg hlist]
    refine ⟨(frame_replyFeedbacks _ m _).listings, fun r => ?_⟩
    rw [lp_modifyLp, lp_replyFeedbacks, lp_replyFeedbacks, hlp, hlp, if_pos rfl]
    by_cases hr : r = dp.lps.next
    · rw [if_pos hr, if_pos hr]
    · rw [if_neg hr, if_neg hr, if_neg hr]

/-- **What a message does to a listing**, from what is stored of it. -/
theorem stored_update (hwf : Wellformed dp) (hkeyed : Keyed dp) (m : AMmessage) (key : Text) :
    stored (updateNXTorrentState env dp m) key = if m.key env = some key then
        ((stored dp key).or
          (if storeKey 64 (m.made env).listingid = (m.made env).listingid then some (m.made env)
          else none)).map m.effect
      else stored dp key := by
  cases hr : dp.listings key with
  | some r =>
    have hstays : (updateNXTorrentState env dp m).listings key = some r := listings_update_of_some hr m
    have htarget : m.target env dp = some r ↔ m.key env = some key := by
      unfold AMmessage.target
      constructor
      · intro h
        obtain ⟨key', hkey', hr'⟩ := Option.bind_eq_some_iff.mp h
        rw [hkey', hkeyed.inj hr' hr]
      · intro h
        rw [h]
        exact hr
    rw [stored_of_some hstays, stored_of_some hr, hwf.lp_update (hwf.listed key r hr), Option.some_or, Option.map_some]
    by_cases hkey : m.key env = some key
    · rw [if_pos hkey, if_pos (htarget.mpr hkey)]
    · rw [if_neg hkey, if_neg (hkey ∘ htarget.mp)]
  | none =>
    by_cases hkey : m.key env = some key
    · obtain ⟨hlistings, hlp⟩ := @update_new env dp m key hkey hr
      have hmade := made_key hkey
      have hnew : dp.listings (storeKey 64 (m.made env).listingid) = none := by rwa [hmade]
      rw [if_pos hkey, stored_of_none hr, Option.none_or]
      by_cases hfits : storeKey 64 (m.made env).listingid = (m.made env).listingid
      · have hfound : (updateNXTorrentState env dp m).listings key = some dp.lps.next := by
          rw [hlistings, ← hmade]
          exact newListing_key hnew hfits
        rw [stored_of_some hfound, hlp, if_pos rfl, if_pos hfits, Option.map_some]
      · have hlost : (updateNXTorrentState env dp m).listings key = none := by
          rw [hlistings, ← hmade]
          exact newListing_listings_none hnew hfits
        rw [stored_of_none hlost, if_neg hfits, Option.map_none]
    · rw [if_neg hkey, stored_of_none hr, stored_of_none]
      rw [update_listings_of_ne hkey]
      exact hr

theorem Keyed.update (h : Keyed dp) (hwf : Wellformed dp) (env : Env) (m : AMmessage) :
    Keyed (updateNXTorrentState env dp m) := by
  intro key r hr
  have hstored := @stored_update env dp hwf h m key
  rw [stored_of_some hr] at hstored
  by_cases hkey : m.key env = some key
  · rw [if_pos hkey, eq_comm, Option.map_eq_some_iff] at hstored
    obtain ⟨l, hl, heq⟩ := hstored
    rw [← heq, effect_listingid]
    rcases Option.or_eq_some_iff.mp hl with hold | ⟨-, hmade⟩
    · obtain ⟨r', hr', rfl⟩ := Option.map_eq_some_iff.mp hold
      exact h key r' hr'
    · obtain ⟨hfits, hmade⟩ := Option.ite_none_right_eq_some.mp hmade
      rw [← Option.some.inj hmade, ← hfits]
      exact made_key hkey
  · rw [if_neg hkey, eq_comm] at hstored
    obtain ⟨r', hr', heq⟩ := Option.map_eq_some_iff.mp hstored
    rw [← heq]
    exact h key r' hr'

/-! ## Commands -/

/-- The client sees the same, and the listing is the same afterwards. -/
structure SameReply (key : Text) (a b : Reply) : Prop where
  call : a.call = b.call
  retstr : a.retstr = b.retstr
  stored : stored a.dp key = stored b.dp key

theorem stored_modifyLp (hr : dp.listings key = some r) (f : NXTorrentListing → NXTorrentListing) :
    stored (dp.modifyLp r f) key = some (f (dp.lp r)) := by
  have hlistings : (dp.modifyLp r f).listings key = some r := hr
  rw [stored_of_some hlistings, lp_modifyLp, if_pos rfl]

theorem sameReply_nolisting (h : stored dp key = stored dp' key) (retstr : Option Text) :
    SameReply key (nolisting dp retstr) (nolisting dp' retstr) := ⟨rfl, rfl, h⟩

theorem lp_modifyLp_same (hlp : dp'.lp r' = dp.lp r) (f : NXTorrentListing → NXTorrentListing) :
    (dp'.modifyLp r' f).lp r' = (dp.modifyLp r f).lp r := by
  rw [lp_modifyLp, lp_modifyLp, if_pos rfl, if_pos rfl, hlp]

section
variable (hr : dp.listings key = some r) (hr' : dp'.listings key = some r') (hlp : dp'.lp r' = dp.lp r)
include hr hr' hlp

theorem stored_modifyLp_same (f : NXTorrentListing → NXTorrentListing) :
    stored (dp.modifyLp r f) key = stored (dp'.modifyLp r' f) key := by
  rw [stored_modifyLp hr, stored_modifyLp hr', hlp]

theorem sameReply_submit (call : AMcall) (status : Int) :
    SameReply key (submit env o dp r call status) (submit env o dp' r' call status) := by
  unfold submit
  cases env.isValidNXTtxid o.am with
  | true =>
    refine ⟨rfl, ?_, stored_modifyLp_same hr hr' hlp _⟩
    show standardAMretstr ((dp.modifyLp r _).lp r).status o.am =
        standardAMretstr ((dp'.modifyLp r' _).lp r').status o.am
    rw [lp_modifyLp, lp_modifyLp, if_pos rfl, if_pos rfl]
  | false =>
    refine ⟨rfl, ?_, ?_⟩
    · show standardAMretstr (dp.lp r).status o.am = standardAMretstr (dp'.lp r').status o.am
      rw [hlp]
    · show stored dp key = stored dp' key
      rw [stored_of_some hr, stored_of_some hr', hlp]

theorem sameReply_modifyLp_submit (f : NXTorrentListing → NXTorrentListing) (call : AMcall) (status : Int) :
    SameReply key (submit env o (dp.modifyLp r f) r call status) (submit env o (dp'.modifyLp r' f) r' call status) := by
  have hlistings : (dp.modifyLp r f).listings key = some r := hr
  have hlistings' : (dp'.modifyLp r' f).listings key = some r' := hr'
  exact sameReply_submit hlistings hlistings' (lp_modifyLp_same hlp f) call status

end

theorem sameReply_cancel (h : stored dp key = stored dp' key) (nxtAddr : Text) :
    SameReply key (cancelFunc env o dp nxtAddr key) (cancelFunc env o dp' nxtAddr key) := by
  unfold cancelFunc getListingid
  by_cases hargs : nxtAddr ≠ [] ∧ key ≠ []
  · rw [if_pos hargs, if_pos hargs]
    rcases stored_cases h with ⟨hr, hr'⟩ | ⟨r, r', hr, hr', hlp⟩
    · rw [hr, hr']
      exact sameReply_nolisting h none
    · rw [hr, hr']
      dsimp only
      rw [hlp]
      split
      · exact sameReply_submit hr hr' hlp _ _
      · exact sameReply_nolisting h _
  · rw [if_neg hargs, if_neg hargs]
    exact sameReply_nolisting h none

theorem sameReply_acceptoffer (h : stored dp key = stored dp' key) (nxtAddr buyer instructions : Text) :
    SameReply key (acceptofferFunc env o dp nxtAddr key buyer instructions)
      (acceptofferFunc env o dp' nxtAddr key buyer instructions) := by
  unfold acceptofferFunc getListingid
  by_cases hargs : nxtAddr ≠ [] ∧ key ≠ [] ∧ buyer ≠ []
  · rw [if_pos hargs, if_pos hargs]
    rcases stored_cases h with ⟨hr, hr'⟩ | ⟨r, r', hr, hr', hlp⟩
    · rw [hr, hr']
      exact sameReply_nolisting h none
    · rw [hr, hr']
      dsimp only
      rw [lp_modifyLp_same hlp]
      exact sameReply_modifyLp_submit hr hr' hlp _ _ _
  · rw [if_neg hargs, if_neg hargs]
    exact sameReply_nolisting h none

theorem sameReply_makeoffer (h : stored dp key = stored dp' key) {nxtAddr bid comments : Text} {reply : Reply}
    (hreply : makeofferFunc env o dp nxtAddr key bid comments = some reply) :
    ∃ reply', makeofferFunc env o dp' nxtAddr key bid comments = some reply' ∧ SameReply key reply reply' := by
  unfold makeofferFunc getListingid at hreply ⊢
  dsimp only at hreply ⊢
  rcases stored_cases h with ⟨hr, hr'⟩ | ⟨r, r', hr, hr', hlp⟩
  · rw [hr, ite_self] at hreply
    rw [hr', ite_self]
    split at hreply
    · cases hreply
    · next hbid =>
      rw [if_neg hbid]
      split at hreply
      · next hargs =>
        obtain rfl := Option.some.inj hreply
        exact ⟨_, if_pos hargs, sameReply_nolisting h none⟩
      · next hargs =>
        obtain rfl := Option.some.inj hreply
        exact ⟨_, if_neg hargs, sameReply_nolisting h none⟩
  · by_cases hkey : key = []
    · rw [if_neg (not_not_intro hkey)] at hreply ⊢
      split at hreply
      · cases hreply
      · next hbid =>
        have hargs : ¬(nxtAddr ≠ [] ∧ key ≠ [] ∧ bidValid o (bidSubatomic env bid)) := fun hand => hand.2.1 hkey
        rw [if_neg hargs] at hreply
        obtain rfl := Option.some.inj hreply
        rw [if_neg hbid, if_neg hargs]
        exact ⟨_, rfl, sameReply_nolisting h none⟩
    · rw [if_pos hkey, hr] at hreply
      rw [if_pos hkey, hr']
      rw [if_neg fun hand => Option.some_ne_none r hand.2] at hreply
      rw [if_neg fun hand => Option.some_ne_none r' hand.2]
      by_cases hargs : nxtAddr ≠ [] ∧ key ≠ [] ∧ bidValid o (bidSubatomic env bid)
      · rw [if_pos hargs] at hreply ⊢
        dsimp only at hreply ⊢
        rw [hlp]
        by_cases hstatus : (dp.lp r).status = nxtorrentActive
        · rw [if_pos hstatus] at hreply ⊢
          obtain rfl := Option.some.inj hreply
          exact ⟨_, rfl, sameReply_modifyLp_submit hr hr' hlp _ _ _⟩
        · rw [if_neg hstatus] at hreply ⊢
          obtain rfl := Option.some.inj hreply
          exact ⟨_, rfl, sameReply_nolisting h _⟩
      · rw [if_neg hargs] at hreply ⊢
        obtain rfl := Option.some.inj hreply
        exact ⟨_, rfl, sameReply_nolisting h none⟩

theorem sameReply_feedback (h : stored dp key = stored dp' key) (nxtAddr ratingstr aboutbuyer aboutseller : Text) :
    SameReply key (feedbackFunc o dp nxtAddr key ratingstr aboutbuyer aboutseller)
      (feedbackFunc o dp' nxtAddr key ratingstr aboutbuyer aboutseller) := by
  unfold feedbackFunc getListingid
  dsimp only
  split
  · rcases stored_cases h with ⟨hr, hr'⟩ | ⟨r, r', hr, hr', hlp⟩
    · rw [hr, hr']
      exact sameReply_nolisting h none
    · rw [hr, hr']
      dsimp only
      simp only [hlp, lp_modifyLp_same hlp]
      split
      · split
        · exact ⟨rfl, rfl, h⟩
        · exact ⟨rfl, rfl, stored_modifyLp_same hr hr' hlp _⟩
      · split
        · split
          · exact ⟨rfl, rfl, h⟩
          · exact ⟨rfl, rfl, stored_modifyLp_same hr hr' hlp _⟩
        · exact ⟨rfl, rfl, h⟩
  · exact sameReply_nolisting h none

/-- A new listing, from what is answered. -/
theorem sameReply_list {a : ListArgs} {reply : Reply} (h : stored dp (storeKey 64 (a.listing env o).listingid) =
      stored dp' (storeKey 64 (a.listing env o).listingid)) (hreply : listFunc env o dp a = some reply) :
    ∃ reply', listFunc env o dp' a = some reply' ∧
    SameReply (storeKey 64 (a.listing env o).listingid) reply reply' := by
  by_cases hcreates : a.creates env
  · rcases stored_cases h with ⟨hr, hr'⟩ | ⟨r, r', hr, hr', hlp⟩
    · have hnew : stored (newListing dp (a.listing env o)) (storeKey 64 (a.listing env o).listingid) =
          stored (newListing dp' (a.listing env o)) (storeKey 64 (a.listing env o).listingid) := by
        rw [stored_newListing hr, stored_newListing hr']
      have hmodify (f : NXTorrentListing → NXTorrentListing) :
          stored ((newListing dp (a.listing env o)).modifyLp dp.lps.next f) (storeKey 64 (a.listing env o).listingid) =
          stored ((newListing dp' (a.listing env o)).modifyLp dp'.lps.next f)
          (storeKey 64 (a.listing env o).listingid) := by
        by_cases hfits : storeKey 64 (a.listing env o).listingid = (a.listing env o).listingid
        · apply stored_modifyLp_same (newListing_key hr hfits) (newListing_key hr' hfits)
          rw [lp_newListing hr, lp_newListing hr', if_pos rfl, if_pos rfl]
        · have hlost {dp : NXTorrentInfo} (hnone : dp.listings (storeKey 64 (a.listing env o).listingid) = none) :
              stored ((newListing dp (a.listing env o)).modifyLp dp.lps.next f)
              (storeKey 64 (a.listing env o).listingid) =
                none := stored_of_none (newListing_listings_none hnone hfits)
          rw [hlost hr, hlost hr']
      have hfst {dp : NXTorrentInfo} (hnone : dp.listings (storeKey 64 (a.listing env o).listingid) = none) :
          (addListing dp (a.listing env o).listingid).1 = dp.lps.next := congrArg Prod.fst (addListing_of_none hnone)
      have hstore {dp : NXTorrentInfo} (hnone : dp.listings (storeKey 64 (a.listing env o).listingid) = none) :
          storeListing (addListing dp (a.listing env o).listingid).2.2 dp.lps.next (a.listing env o) =
            newListing dp (a.listing env o) := by
        unfold newListing
        rw [hfst hnone]
      unfold listFunc at hreply ⊢
      dsimp only at hreply ⊢
      rw [if_pos hcreates, if_pos (by rw [addListing_of_none hr]), hfst hr, hstore hr] at hreply
      rw [if_pos hcreates, if_pos (by rw [addListing_of_none hr']), hfst hr', hstore hr']
      by_cases hcmp : cmpNXTorrentListings (a.listing env o)
          (decodeNXTorrentJson env (genListingJson env (a.listing env o) none none)) < 0
      · rw [if_pos hcmp] at hreply ⊢
        obtain rfl := Option.some.inj hreply
        exact ⟨_, rfl, rfl, rfl, hnew⟩
      · rw [if_neg hcmp] at hreply ⊢
        by_cases hfreed : env.isValidNXTtxid (some o.freed) = true
        · rw [if_pos hfreed] at hreply ⊢
          cases ham : o.am with
          | none =>
            rw [ham] at hreply
            cases hreply
          | some str =>
            rw [ham] at hreply
            obtain rfl := Option.some.inj hreply
            exact ⟨_, rfl, rfl, rfl, hmodify _⟩
        · rw [if_neg hfreed] at hreply ⊢
          obtain rfl := Option.some.inj hreply
          exact ⟨_, rfl, rfl, rfl, hnew⟩
    · rw [listFunc_of_some hcreates hr] at hreply
      obtain rfl := Option.some.inj hreply
      exact ⟨_, listFunc_of_some hcreates hr', rfl, rfl, h⟩
  · unfold listFunc at hreply ⊢
    rw [if_neg hcreates] at hreply ⊢
    obtain rfl := Option.some.inj hreply
    exact ⟨_, rfl, rfl, rfl, h⟩

/-- **What a command does and answers** is decided by its listing. -/
theorem sameReply_runRequest {q : Request} {reply : Reply} (h : stored dp (q.key env o) = stored dp' (q.key env o))
    (hreply : runRequest env o dp q = some reply) :
    ∃ reply', runRequest env o dp' q = some reply' ∧ SameReply (q.key env o) reply reply' := by
  cases q with
  | list a => exact sameReply_list h hreply
  | cancel nxtAddr listingid =>
    obtain rfl := Option.some.inj hreply
    exact ⟨_, rfl, sameReply_cancel h nxtAddr⟩
  | makeoffer nxtAddr listingid bid comments => exact sameReply_makeoffer h hreply
  | acceptoffer nxtAddr listingid buyer instructions =>
    obtain rfl := Option.some.inj hreply
    exact ⟨_, rfl, sameReply_acceptoffer h nxtAddr buyer instructions⟩
  | feedback nxtAddr listingid ratingstr aboutbuyer aboutseller =>
    obtain rfl := Option.some.inj hreply
    exact ⟨_, rfl, sameReply_feedback h nxtAddr ratingstr aboutbuyer aboutseller⟩

/-! ## Steps -/

theorem Request.target_key {q : Request} (h : q.target env o dp = some r) : dp.listings (q.key env o) = some r := by
  cases q with
  | list => cases h
  | cancel | makeoffer | feedback =>
    obtain ⟨-, hfilter⟩ := Option.ite_none_right_eq_some.mp h
    exact (Option.filter_eq_some_iff.mp hfilter).1
  | acceptoffer => exact (Option.ite_none_right_eq_some.mp h).2

theorem Request.write_listingid (valid : Bool) (q : Request) (l : NXTorrentListing) :
    (q.write valid l).listingid = l.listingid := listingid_of_terms (q.terms_write valid l)

theorem Request.Done.keyed {q : Request} {reply : Reply} (h : q.Done env o dp reply) (hkeyed : Keyed dp) :
    Keyed reply.dp := by
  refine h.frame.keyed (fun r => ?_) hkeyed
  rw [h.lp]
  split
  · exact q.write_listingid _ _
  · rfl

theorem Request.Done.stored_of_ne {q : Request} {reply : Reply} (h : q.Done env o dp reply) (hkeyed : Keyed dp)
    (hkey : q.key env o ≠ key) : stored reply.dp key = stored dp key := by
  have hlistings := congrFun h.frame.listings key
  cases hr : dp.listings key with
  | none => rw [stored_of_none hr, stored_of_none (hlistings.trans hr)]
  | some r =>
    have htarget : q.target env o dp ≠ some r := fun htarget => hkey (hkeyed.inj (Request.target_key htarget) hr)
    rw [stored_of_some hr, stored_of_some (hlistings.trans hr), h.lp, if_neg htarget]

theorem keyed_listFunc {a : ListArgs} {reply : Reply} (h : listFunc env o dp a = some reply) (hwf : Wellformed dp)
    (hkeyed : Keyed dp) : Keyed reply.dp := by
  rcases listFunc_cases h with ⟨hdp, -⟩ | ⟨hcreates, hnone, hframe⟩
  · rw [hdp]
    exact hkeyed
  · obtain ⟨bits, hdp⟩ := listFunc_dp h hcreates hnone
    refine hframe.keyed (fun r => ?_) (keyed_newListing hkeyed hwf hnone)
    rw [hdp, lp_modifyLp]
    split
    · next hr => rw [hr]
    · rfl

theorem stored_listFunc_of_ne {a : ListArgs} {reply : Reply} (h : listFunc env o dp a = some reply)
    (hwf : Wellformed dp) (hkey : storeKey 64 (a.listing env o).listingid ≠ key) :
    stored reply.dp key = stored dp key := by
  rcases listFunc_cases h with ⟨hdp, -⟩ | ⟨hcreates, hnone, -⟩
  · rw [hdp]
  · obtain ⟨bits, hdp⟩ := listFunc_dp h hcreates hnone
    have hlistings : reply.dp.listings key = dp.listings key := by
      rw [hdp]
      exact newListing_listings_of_ne hnone hkey.symm
    cases hr : dp.listings key with
    | none => rw [stored_of_none hr, stored_of_none (hlistings.trans hr)]
    | some r =>
      have hne : r ≠ dp.lps.next := fun heq => hwf.next_not_mem (heq ▸ hwf.listed key r hr)
      rw [stored_of_some hr, stored_of_some (hlistings.trans hr), hdp, lp_modifyLp, if_neg hne, lp_newListing hnone,
        if_neg hne]

theorem listingsFunc_listingid (dp : NXTorrentInfo) (all : List Nat) (r : Nat) :
    ((listingsFunc dp all).lp r).listingid = (dp.lp r).listingid := listingid_of_terms (terms_listingsFunc dp all r)

theorem Keyed.step {e : Event} (h : Keyed dp) (hwf : Wellformed dp) (hstep : step env dp e = some dp') : Keyed dp' := by
  cases e with
  | message m =>
    obtain rfl := Option.some.inj hstep
    exact h.update hwf env m
  | request q o =>
    obtain ⟨reply, hreply, rfl⟩ := Option.map_eq_some_iff.mp hstep
    by_cases hlist : ∃ a, q = .list a
    · obtain ⟨a, rfl⟩ := hlist
      exact keyed_listFunc hreply hwf h
    · exact (runRequest_done (fun a heq => hlist ⟨a, heq⟩) hreply).keyed h
  | listings all =>
    obtain rfl := Option.some.inj hstep
    exact (frame_listingsFunc dp all).keyed (listingsFunc_listingid dp all) h
  | status nxtAddr listingid =>
    obtain rfl := Option.some.inj hstep
    refine (frame_statusFunc dp nxtAddr listingid).keyed (fun r => ?_) h
    unfold statusFunc
    split
    · split <;> rfl
    · rfl
  | tick timestamp =>
    obtain rfl := Option.some.inj hstep
    exact h

/-- **The listing under a key is a view of the tables**: other events leave it alone, and its own need nothing else. -/
theorem unwinds_stored (env : Env) (key : Text) :
    Unwinds (step env) (fun dp => Wellformed dp ∧ Keyed dp) Unlisted (About env key) (stored · key) where
  keeps h hstep := ⟨h.1.step hstep, h.2.step h.1 hstep⟩
  respects := by
    rintro dp e dp' ⟨hwf, hkeyed⟩ hok habout hstep
    cases e with
    | message m =>
      obtain rfl := Option.some.inj hstep
      rw [stored_update hwf hkeyed]
      exact if_neg habout
    | request q o =>
      obtain ⟨reply, hreply, rfl⟩ := Option.map_eq_some_iff.mp hstep
      by_cases hlist : ∃ a, q = .list a
      · obtain ⟨a, rfl⟩ := hlist
        exact stored_listFunc_of_ne hreply hwf habout
      · exact (runRequest_done (fun a heq => hlist ⟨a, heq⟩) hreply).stored_of_ne hkeyed habout
    | listings => exact absurd hok id
    | status nxtAddr listingid =>
      obtain rfl := Option.some.inj hstep
      unfold statusFunc
      split
      · split <;> rfl
      · rfl
    | tick timestamp =>
      obtain rfl := Option.some.inj hstep
      rfl
  consistent := by
    rintro dp t e dp' ⟨hwf, hkeyed⟩ ⟨hwf', hkeyed'⟩ - hview habout hstep
    cases e with
    | message m =>
      obtain rfl := Option.some.inj hstep
      refine ⟨_, rfl, ?_⟩
      rw [stored_update hwf hkeyed, stored_update hwf' hkeyed', hview]
    | request q o =>
      obtain ⟨reply, hreply, rfl⟩ := Option.map_eq_some_iff.mp hstep
      have hkey : q.key env o = key := habout
      subst hkey
      obtain ⟨reply', hreply', hsame⟩ := sameReply_runRequest hview hreply
      exact ⟨_, congrArg (Option.map Reply.dp) hreply', hsame.stored⟩
    | listings | status | tick => exact absurd habout id

theorem answer_congr {e : Event} (h : stored dp key = stored dp' key) (habout : About env key e) :
    answer env dp e = answer env dp' e := by
  cases e with
  | request q o =>
    have hkey : q.key env o = key := habout
    subst hkey
    unfold answer
    dsimp only
    cases hreply : runRequest env o dp q with
    | some reply =>
      obtain ⟨reply', hreply', hsame⟩ := sameReply_runRequest h hreply
      rw [hreply', Option.map_some, Option.map_some, hsame.call, hsame.retstr]
    | none =>
      cases hreply' : runRequest env o dp' q with
      | none => rfl
      | some reply' =>
        obtain ⟨reply, hreply'', -⟩ := sameReply_runRequest h.symm hreply'
        rw [hreply] at hreply''
        cases hreply''
  | message | listings | status | tick => rfl

end

/-- **Listings do not see each other**: in any run in which nobody looks at all listings, a listing is what the messages
and commands about it make of it, and these are answered what they would be answered if there were no others. -/
theorem listing_isolated (env : Env) {es : List Event} {dp : NXTorrentInfo} (hrun : Run.run (step env) {} es = some dp)
    (hunlisted : ∀ e ∈ es, Unlisted e) (key : Text) :
    ∃ own, Run.run (step env) {} (es.filter (About env key)) = some own ∧ stored own key = stored dp key ∧
      answers (step env) (About env key) (answer env) {} es =
        answers (step env) (About env key) (answer env) {} (es.filter (About env key)) := by
  have hinit : Wellformed {} ∧ Keyed {} := ⟨wellformed_empty, fun key r hr => by cases hr⟩
  have hunwinds := unwinds_stored env key
  obtain ⟨own, hown, -, hstored⟩ := Unwinding.run_filter hunwinds hunlisted hinit hinit rfl hrun
  refine ⟨own, hown, hstored.symm, ?_⟩
  exact Unwinding.answers_filter hunwinds (fun _ _ h habout => answer_congr h habout) hunlisted hinit hinit rfl hrun

/-- A listing; another one is made and asked for; the first one is cancelled. -/
def twoListings : List Event :=
  [.message (listing1 "7"), .request (.list (diskListing "ab" "c")) refused,
    .message { message1 nxtorrentMakeoffer "5" "7" with listingbits := 2 }, .tick 100,
    .request (.cancel "7".toList "1".toList) refused]

theorem listing_isolated_two : ∃ dp own, Run.run (step wholeEnv) {} twoListings = some dp ∧
    Run.run (step wholeEnv) {} (twoListings.filter (About wholeEnv "1".toList)) = some own ∧
      stored own "1".toList = stored dp "1".toList := by
  have hsome : (Run.run (step wholeEnv) {} twoListings).isSome := by decide +kernel
  obtain ⟨dp, hrun⟩ := Option.isSome_iff_exists.mp hsome
  obtain ⟨own, hown, hstored, -⟩ := listing_isolated wholeEnv hrun (by decide) "1".toList
  exact ⟨dp, own, hrun, hown, hstored⟩

end NXTServices.Torrent
