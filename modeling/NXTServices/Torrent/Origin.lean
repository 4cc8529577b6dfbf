import NXTServices.Torrent.Isolation

/-!
# Where a listing comes from

* `Brings` : the event that stores a listing, and what it says of it;
* `brings_of_step` : a listing is stored by such an event only;
* `listing_terms` : **what is said of a listing** is what the event said that stored it, whatever came later.
-/

namespace NXTServices.Torrent
open Hashtable (storeKey ValidKey)

/-- The event is about the key, and `l` is the listing that it has for it. -/
def Brings (env : Env) (key : Text) (l : NXTorrentListing) : Event → Prop
  | .message m => m.key env = some key ∧ l = m.made env
  | .request (.list a) o => a.creates env ∧ (a.listing env o).listingid = key ∧ l = a.listing env o
  | .request _ _ | .listings _ | .status _ _ | .tick _ => False

section
variable {env : Env} {o : Outside} {dp dp' : NXTorrentInfo} {l : NXTorrentListing} {key : Text}

theorem brings_of_listFunc {a : ListArgs} {reply : Reply} (h : listFunc env o dp a = some reply) (hwf : Wellformed dp)
    (hnone : stored dp key = none) (hl : stored reply.dp key = some l) :
    ∃ brought, Brings env key brought (.request (.list a) o) ∧ l.terms = brought.terms := by
  rcases listFunc_cases h with ⟨hdp, -⟩ | ⟨hcreates, hnew, -⟩
  · rw [hdp, hnone] at hl
    cases hl
  · have hkey : storeKey 64 (a.listing env o).listingid = key := by
      by_contra hne
      rw [stored_listFunc_of_ne h hwf hne, hnone] at hl
      cases hl
    obtain ⟨bits, hdp⟩ := listFunc_dp h hcreates hnew
    by_cases hfits : storeKey 64 (a.listing env o).listingid = (a.listing env o).listingid
    · have hfound : reply.dp.listings key = some dp.lps.next := by
        rw [hdp, ← hkey]
        exact newListing_key hnew hfits
      rw [stored_of_some hfound, hdp, lp_modifyLp, if_pos rfl, lp_newListing hnew, if_pos rfl] at hl
      obtain rfl := Option.some.inj hl
      exact ⟨a.listing env o, ⟨hcreates, hfits ▸ hkey, rfl⟩, rfl⟩
    · have hlost : reply.dp.listings key = none := by
        rw [hdp, ← hkey]
        exact newListing_listings_none hnew hfits
      rw [stored_of_none hlost] at hl
      cases hl

/-- **A listing is stored by an event that brings it.** -/
theorem brings_of_step {e : Event} (hstep : step env dp e = some dp') (hwf : Wellformed dp) (hkeyed : Keyed dp)
    (hnone : stored dp key = none) (hl : stored dp' key = some l) :
    ∃ brought, Brings env key brought e ∧ l.terms = brought.terms := by
  have hsame (hlistings : dp'.listings = dp.listings) : False := by
    unfold stored at hnone hl
    rw [hlistings, Option.map_eq_none_iff.mp hnone] at hl
    cases hl
  cases e with
  | message m =>
    obtain rfl := Option.some.inj hstep
    rw [stored_update hwf hkeyed, hnone, Option.none_or] at hl
    by_cases hkey : m.key env = some key
    · rw [if_pos hkey] at hl
      obtain ⟨made, hmade, rfl⟩ := Option.map_eq_some_iff.mp hl
      obtain ⟨-, hmade⟩ := Option.ite_none_right_eq_some.mp hmade
      obtain rfl := Option.some.inj hmade
      exact ⟨m.made env, ⟨hkey, rfl⟩, terms_effect m _⟩
    · rw [if_neg hkey] at hl
      cases hl
  | request q o =>
    obtain ⟨reply, hreply, rfl⟩ := Option.map_eq_some_iff.mp hstep
    by_cases hlist : ∃ a, q = .list a
    · obtain ⟨a, rfl⟩ := hlist
      exact brings_of_listFunc hreply hwf hnone hl
    · exact absurd (runRequest_done (fun a heq => hlist ⟨a, heq⟩) hreply).frame.listings hsame
  | listings all =>
    obtain rfl := Option.some.inj hstep
    exact absurd (frame_listingsFunc dp all).listings hsame
  | status nxtAddr listingid =>
    obtain rfl := Option.some.inj hstep
    exact absurd (frame_statusFunc dp nxtAddr listingid).listings hsame
  | tick timestamp =>
    obtain rfl := Option.some.inj hstep
    exact absurd rfl hsame

theorem stored_terms_run {es : List Event} (hfiled : Filed dp) (hready : Ready dp)
    (hrun : Run.run (step env) dp es = some dp') (hl : stored dp key = some l) :
    ∃ l', stored dp' key = some l' ∧ l'.terms = l.terms := by
  obtain ⟨r, hr, rfl⟩ := Option.map_eq_some_iff.mp hl
  exact ⟨dp'.lp r, stored_of_some (listings_of_run hrun hr),
    (Grows.run ⟨hfiled, hready⟩ hrun).1.terms r (hfiled.wellformed.listed key r hr)⟩

/-- A listing that a run ends with and did not start with. -/
theorem brought_of_run {es : List Event} (hfiled : Filed dp) (hready : Ready dp) (hkeyed : Keyed dp)
    (hrun : Run.run (step env) dp es = some dp') (hnone : stored dp key = none) (hl : stored dp' key = some l) :
    ∃ before e after mid brought, es = before ++ e :: after ∧ Run.run (step env) dp before = some mid ∧
      stored mid key = none ∧ Brings env key brought e ∧ l.terms = brought.terms := by
  induction es generalizing dp with
  | nil =>
    obtain rfl := Option.some.inj hrun
    rw [hnone] at hl
    cases hl
  | cons e es ih =>
    obtain ⟨next, hstep, hrest⟩ := Option.bind_eq_some_iff.mp hrun
    obtain ⟨hfiled', hready'⟩ := filed_ready_step hfiled hready hstep
    cases hmade : stored next key with
    | some made =>
      obtain ⟨brought, hbrings, hterms⟩ := brings_of_step hstep hfiled.wellformed hkeyed hnone hmade
      obtain ⟨l', hl', hsame⟩ := stored_terms_run hfiled' hready' hrest hmade
      obtain rfl := Option.some.inj (hl.symm.trans hl')
      exact ⟨[], e, es, dp, brought, rfl, rfl, hnone, hbrings, hsame.trans hterms⟩
    | none =>
      obtain ⟨before, e', after, mid, brought, rfl, hbefore, hmid⟩ :=
        ih hfiled' hready' (hkeyed.step hfiled.wellformed hstep) hrest hmade
      refine ⟨e :: before, e', after, mid, brought, rfl, ?_, hmid⟩
      rw [Run.run_cons, hstep]
      exact hbefore

end

/-- **What is said of a listing** in any state is what was said of it by the one event that stored it: a `LIST` message,
a command, or a message about a listing that was not there yet. -/
theorem listing_terms (env : Env) {es : List Event} {dp : NXTorrentInfo} (hrun : Run.run (step env) {} es = some dp)
    {key : Text} {l : NXTorrentListing} (hl : stored dp key = some l) :
    ∃ before e after mid brought, es = before ++ e :: after ∧ Run.run (step env) {} before = some mid ∧
      stored mid key = none ∧ Brings env key brought e ∧ l.terms = brought.terms :=
  brought_of_run filed_empty ready_empty (fun _ _ hr => by cases hr) hrun rfl hl

/-- A second `LIST` message for the id, of another seller, comes too late. -/
theorem listing_terms_late : ∃ dp l,
    Run.run (step wholeEnv) {} [.message (listing1 "7"), .message (listing1 "8")] = some dp ∧
      stored dp "1".toList = some l ∧ ∃ before e after mid brought,
      [Event.message (listing1 "7"), .message (listing1 "8")] = before ++ e :: after ∧
        Run.run (step wholeEnv) {} before = some mid ∧ stored mid "1".toList = none ∧
          Brings wholeEnv "1".toList brought e ∧ l.terms = brought.terms := by
  have hsome : (stored (updateNXTorrentState wholeEnv (updateNXTorrentState wholeEnv {} (listing1 "7")) (listing1 "8"))
      "1".toList).isSome := by decide +kernel
  obtain ⟨l, hl⟩ := Option.isSome_iff_exists.mp hsome
  exact ⟨_, l, rfl, hl, listing_terms wholeEnv rfl hl⟩

end NXTServices.Torrent
