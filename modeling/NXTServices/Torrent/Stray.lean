import NXTServices.Torrent.Deals

/-!
# Messages about listings that are not there

* `Event.key`, `step_listings_of_ne` : the key that a step looks up, and that it keeps the others;
* `Stray`, `Lists` : a message for an unknown id, and what a later `LIST` message is to do;
* `listsLater_of_unknown` : it does so as long as the id stays unknown;
* `list_after_stray` : what it does when a stray message came first;
* `along_keepsUnknown_iff` : the runs in which stray messages have no effect.
-/

namespace NXTServices.Torrent
open Hashtable (storeKey storeKey_of_valid ValidKey)

/-! ## Keys -/

/-- The key that a step may add. -/
def Event.key (env : Env) : Event → Option Text
  | .message m => m.key env
  | .request (.list a) o => some (storeKey 64 (newListingid (calcNxt64bits a.nxtAddr) o.crc))
  | _ => none

section
variable {env : Env} {dp dp' : NXTorrentInfo} {m : AMmessage} {e : Event} {key listingid : Text}

theorem listings_activate (r : Nat) : (activate dp r).listings = dp.listings := by
  unfold activate
  dsimp only
  split <;> rfl

theorem listings_addListing_of_ne (hkey : key ≠ storeKey 64 listingid) :
    (addListing dp listingid).2.2.listings key = dp.listings key := by
  rcases addListing_cases dp listingid with ⟨r, -, heq⟩ | ⟨-, heq⟩
  · rw [heq]
  · rw [heq]
    exact Function.update_of_ne hkey _ _

theorem listings_listMessage_of_ne {l : NXTorrentListing} (amTxidbits : BitVec 64)
    (hkey : key ≠ storeKey 64 l.listingid) : (listMessage dp l amTxidbits).listings key = dp.listings key := by
  rcases addListing_cases dp l.listingid with ⟨r, -, heq⟩ | ⟨hnone, -⟩
  · unfold listMessage
    rw [heq]
    exact congrFun (listings_activate r) key
  · rw [listMessage_new hnone]
    exact (congrFun (listings_activate _) key).trans (newListing_listings_of_ne hnone hkey)

theorem update_listings_of_ne (hkey : m.key env ≠ some key) :
    (updateNXTorrentState env dp m).listings key = dp.listings key := by
  unfold AMmessage.key at hkey
  unfold updateNXTorrentState
  split
  · rfl
  · next hbits =>
    rw [if_neg hbits] at hkey
    split
    · next hlist =>
      rw [if_pos hlist] at hkey
      cases hargjson : m.argjson with
      | none => rfl
      | some argjson =>
        rw [hargjson] at hkey
        exact listings_listMessage_of_ne _ fun h => hkey (congrArg some h.symm)
    · next hlist =>
      rw [if_neg hlist] at hkey
      show (replyFeedbacks _ m _).listings key = _
      rw [(frame_replyFeedbacks _ m _).listings]
      exact listings_addListing_of_ne fun h => hkey (congrArg some h.symm)

/-- A step keeps the keys that it does not look up. -/
theorem step_listings_of_ne (hstep : step env dp e = some dp') (hkey : e.key env ≠ some key) :
    dp'.listings key = dp.listings key := by
  cases e with
  | message m =>
    obtain rfl := Option.some.inj hstep
    exact update_listings_of_ne hkey
  | request q o =>
    obtain ⟨reply, hreply, rfl⟩ := Option.map_eq_some_iff.mp hstep
    rcases frame_runRequest hreply with hframe | ⟨a, rfl, hnone, hframe⟩
    · exact congrFun hframe.listings key
    · rw [hframe.listings]
      exact newListing_listings_of_ne hnone fun h => hkey (congrArg some h.symm)
  | listings all =>
    obtain rfl := Option.some.inj hstep
    exact congrFun (frame_listingsFunc dp all).listings key
  | status nxtAddr listingid =>
    obtain rfl := Option.some.inj hstep
    exact congrFun (frame_statusFunc dp nxtAddr listingid).listings key
  | tick timestamp =>
    obtain rfl := Option.some.inj hstep
    rfl

/-! ## Unknown listings -/

/-- The message is about a listing that is not stored. -/
def Stray (dp : NXTorrentInfo) (m : AMmessage) : Prop :=
  m.funcid ∈ [nxtorrentCancel, nxtorrentMakeoffer, nxtorrentAccept, nxtorrentFeedback] ∧
    getListingid dp (expandNxt64bits m.listingbits) = none
deriving Decidable

/-- A `LIST` message for the id stores and activates the listing, with the data of its JSON. -/
def Lists (env : Env) (dp : NXTorrentInfo) (listingid : Text) : Prop :=
  ∀ m argjson, m.funcid = nxtorrentList → m.listingbits ≠ 0#64 → m.argjson = some argjson →
    (decodeNXTorrentJson env argjson).listingid = listingid →
    (decodeNXTorrentJson env argjson).status = nxtorrentInactive →
    ∃ r, getListingid (updateNXTorrentState env dp m) listingid = some r ∧
      (updateNXTorrentState env dp m).lp r =
        { activated (decodeNXTorrentJson env argjson) with listingAMbits := m.amTxidbits }

/-- So it does after any steps that do not look up the id. -/
def ListsLater (env : Env) (dp : NXTorrentInfo) (listingid : Text) : Prop :=
  ∀ later dp', Run.run (step env) dp later = some dp' → (∀ e ∈ later, e.key env ≠ some listingid) →
    Lists env dp' listingid

theorem lists_of_unknown (hvalid : ValidKey 64 listingid) (hnone : getListingid dp listingid = none) :
    Lists env dp listingid := by
  rintro m argjson hlist hbits hargjson rfl hstatus
  have hkey := storeKey_of_valid hvalid.1 hvalid.2
  have hnew : dp.listings (storeKey 64 (decodeNXTorrentJson env argjson).listingid) = none := by rwa [hkey]
  have hupdate : updateNXTorrentState env dp m = listMessage dp (decodeNXTorrentJson env argjson) m.amTxidbits := by
    unfold updateNXTorrentState
    rw [if_neg hbits, if_pos hlist, hargjson]
  refine ⟨dp.lps.next, ?_, ?_⟩
  · rw [hupdate, listMessage_new hnew]
    show (activate _ _).listings _ = _
    rw [listings_activate]
    exact newListing_listings hnew hvalid
  · rw [hupdate, listMessage_new hnew, lp_modifyLp, if_pos rfl, lp_activate, if_pos rfl, lp_newListing hnew, if_pos rfl]

theorem listsLater_of_unknown (hvalid : ValidKey 64 listingid) (hnone : getListingid dp listingid = none) :
    ListsLater env dp listingid := by
  intro later dp' hrun hlater
  apply lists_of_unknown hvalid
  induction later generalizing dp with
  | nil =>
    obtain rfl := Option.some.inj hrun
    exact hnone
  | cons e later ih =>
    obtain ⟨mid, hmid, hrest⟩ := Option.bind_eq_some_iff.mp hrun
    refine ih ?_ hrest fun e he => hlater e (List.mem_cons_of_mem _ he)
    exact (step_listings_of_ne hmid (hlater e List.mem_cons_self)).trans hnone

theorem storeKey_expandNxt64bits {bits : BitVec 64} (h : bits ≠ 0#64) : ValidKey 64 (expandNxt64bits bits) ∧
    storeKey 64 (expandNxt64bits bits) = expandNxt64bits bits := by
  have hne : expandNxt64bits bits ≠ [] := by
    intro hnil
    apply h
    rw [← calcNxt64bits_expandNxt64bits bits, hnil]
    rfl
  have hlen : (expandNxt64bits bits).length < 64 := by
    have := length_expandNxt64bits bits
    omega
  exact ⟨⟨hne, hlen⟩, storeKey_of_valid hne hlen⟩

/-- A stray message with an id makes a listing of its own. -/
theorem update_stray (env : Env) (hstray : Stray dp m) (hbits : m.listingbits ≠ 0#64) :
    (updateNXTorrentState env dp m).entries = dp.entries ++ [dp.lps.next] ∧
      (updateNXTorrentState env dp m).listings (expandNxt64bits m.listingbits) = some dp.lps.next ∧
      (updateNXTorrentState env dp m).lp dp.lps.next = reply m { listingid := expandNxt64bits m.listingbits } := by
  obtain ⟨hfuncid, hnone⟩ := hstray
  have hkey := (storeKey_expandNxt64bits hbits).2
  have hlist : m.funcid ≠ nxtorrentList := by
    intro hlist
    rw [hlist] at hfuncid
    exact absurd hfuncid (by decide)
  have hupdate : updateNXTorrentState env dp m = replyMessage dp m := by
    unfold updateNXTorrentState
    rw [if_neg hbits, if_neg hlist]
  have hadd : dp.listings (storeKey 64 (expandNxt64bits m.listingbits)) = none := by rwa [hkey]
  rw [hupdate]
  unfold replyMessage
  rcases addListing_cases dp (expandNxt64bits m.listingbits) with ⟨r, hr, -⟩ | ⟨-, heq⟩
  · rw [hadd] at hr
    cases hr
  · rw [heq, hkey]
    refine ⟨?_, ?_, ?_⟩
    · show (replyFeedbacks _ m _).entries = _
      rw [(frame_replyFeedbacks _ m _).entries]
    · show (replyFeedbacks _ m _).listings _ = _
      rw [(frame_replyFeedbacks _ m _).listings]
      exact Function.update_self ..
    · rw [lp_modifyLp, if_pos rfl, lp_replyFeedbacks]
      exact congrArg (reply m) Arena.alloc_cell_next

/-- **A stray message stands in the way of its listing**: the `LIST` message finds the record of the stray
one, and nothing of its JSON is stored. -/
theorem list_after_stray {m' : AMmessage} {argjson : Json} (h : Wellformed dp) (hstray : Stray dp m)
    (hbits : m.listingbits ≠ 0#64) (hlist : m'.funcid = nxtorrentList) (hbits' : m'.listingbits ≠ 0#64)
    (hargjson : m'.argjson = some argjson)
    (hid : (decodeNXTorrentJson env argjson).listingid = expandNxt64bits m.listingbits) :
    (updateNXTorrentState env (updateNXTorrentState env dp m) m').lp dp.lps.next =
      { activated (reply m { listingid := expandNxt64bits m.listingbits }) with listingAMbits := m'.amTxidbits } := by
  obtain ⟨hentries, hlistings, hlp⟩ := update_stray env hstray hbits
  have hmem : dp.lps.next ∈ (updateNXTorrentState env dp m).entries := by
    rw [hentries]
    exact List.mem_append_right _ (List.mem_singleton_self _)
  have htarget : m'.target env (updateNXTorrentState env dp m) = some dp.lps.next := by
    unfold AMmessage.target AMmessage.key
    rw [if_neg hbits', if_pos hlist, hargjson]
    show (updateNXTorrentState env dp m).listings (storeKey 64 _) = _
    rw [hid, (storeKey_expandNxt64bits hbits).2]
    exact hlistings
  rw [(h.update env m).lp_update hmem, if_pos htarget, AMmessage.effect_list hlist, hlp]

/-- A stray message leaves the stored listings, and its id free. -/
def KeepsUnknown (env : Env) (dp : NXTorrentInfo) (m : AMmessage) : Prop :=
  Stray dp m →
    (updateNXTorrentState env dp m).listings = dp.listings ∧
      (updateNXTorrentState env dp m).entries = dp.entries ∧
      (ValidKey 64 (expandNxt64bits m.listingbits) →
        ListsLater env (updateNXTorrentState env dp m) (expandNxt64bits m.listingbits))

theorem keepsUnknown_iff : KeepsUnknown env dp m ↔ (Stray dp m → m.listingbits = 0#64) := by
  constructor
  · intro hkeeps hstray
    by_contra hbits
    have hsame := (hkeeps hstray).2.1
    rw [(update_stray env hstray hbits).1] at hsame
    simp at hsame
  · intro hzero hstray
    have hbits := hzero hstray
    have hupdate : updateNXTorrentState env dp m = dp := if_pos hbits
    rw [hupdate]
    exact ⟨rfl, rfl, fun hvalid => listsLater_of_unknown hvalid hstray.2⟩

end

/-- **Stray messages have no effect in a run** exactly when each of them has no id at all: the lookup makes
the listing that it does not find. -/
theorem along_keepsUnknown_iff (env : Env) (es : List Event) :
    Run.Along (step env) (onMessage (KeepsUnknown env)) {} es ↔
      Run.Along (step env) (onMessage fun dp m => Stray dp m → m.listingbits = 0#64) {} es :=
  along_onMessage_congr (fun _ _ _ => keepsUnknown_iff) es

/-- A cancellation comes before its listing. -/
theorem not_forall_keepsUnknown :
    ¬ ∀ (env : Env) (es : List Event), Run.Along (step env) (onMessage (KeepsUnknown env)) {} es := by
  intro h
  obtain ⟨hfirst, -⟩ := h wholeEnv [.message (message1 nxtorrentCancel "7" "5")]
  have hlists := (hfirst ⟨by decide, rfl⟩).2.2 ⟨by decide, by decide⟩ [] _ rfl (by simp)
  obtain ⟨r, hr, hstored⟩ := hlists (listing1 "7") _ rfl (by decide) rfl (by decide +kernel) (by decide +kernel)
  obtain rfl : 0 = r := Option.some.inj (Eq.trans (by decide +kernel) hr)
  exact absurd (congrArg NXTorrentListing.seller64bits hstored) (by decide +kernel)

end NXTServices.Torrent
