import NXTServices.Torrent.Deals

/-!
# Commands without an accepted message

* `SameTable` : the stored listings, with what a deal is about;
* `Harmless` : the requests that write nothing before their message is accepted;
* `sameTable_iff` : a command that fails leaves the table exactly for these.
-/

namespace NXTServices.Torrent
open Hashtable (storeKey)

/-- The same listings are stored, with the same status, buyer and feedback. -/
structure SameTable (dp dp' : NXTorrentInfo) : Prop where
  listings : dp'.listings = dp.listings
  entries : dp'.entries = dp.entries
  status : ∀ r, (dp'.lp r).status = (dp.lp r).status
  buyer : ∀ r, (dp'.lp r).buyer64bits = (dp.lp r).buyer64bits
  seller : ∀ r, (dp'.lp r).feedbackSeller = (dp.lp r).feedbackSeller
  about : ∀ r, (dp'.lp r).feedbackBuyer = (dp.lp r).feedbackBuyer

/-- What a request writes before its message is accepted is there already: no listing is made, and the buyer
or the rating is the same. -/
def Harmless (env : Env) (o : Outside) (dp : NXTorrentInfo) (q : Request) : Prop :=
  match q with
  | .list a => a.creates env → dp.listings (storeKey 64 (newListingid (calcNxt64bits a.nxtAddr) o.crc)) ≠ none
  | .cancel _ _ => True
  | .makeoffer nxtAddr _ _ _ => ∀ r ∈ q.target env o dp, (dp.lp r).buyer64bits = calcNxt64bits nxtAddr
  | .acceptoffer _ _ buyer _ => ∀ r ∈ q.target env o dp, (dp.lp r).buyer64bits = calcNxt64bits buyer
  | .feedback nxtAddr _ ratingstr _ _ => ∀ r ∈ q.target env o dp,
    if (dp.lp r).buyer64bits = calcNxt64bits nxtAddr then (dp.lp r).feedbackSeller.rating = atoi ratingstr
    else (dp.lp r).feedbackBuyer.rating = atoi ratingstr

section
variable {env : Env} {o : Outside} {dp : NXTorrentInfo} {q : Request} {reply : Reply}

theorem sameTable_refl (dp : NXTorrentInfo) : SameTable dp dp where
  listings := rfl
  entries := rfl
  status _ := rfl
  buyer _ := rfl
  seller _ := rfl
  about _ := rfl

/-- A write to one record, from that record. -/
theorem sameTable_modifyLp_iff {r : Nat} {f : NXTorrentListing → NXTorrentListing} :
    SameTable dp (dp.modifyLp r f) ↔
      (f (dp.lp r)).status = (dp.lp r).status ∧ (f (dp.lp r)).buyer64bits = (dp.lp r).buyer64bits ∧
        (f (dp.lp r)).feedbackSeller = (dp.lp r).feedbackSeller ∧
        (f (dp.lp r)).feedbackBuyer = (dp.lp r).feedbackBuyer := by
  have hlp : (dp.modifyLp r f).lp r = f (dp.lp r) := by rw [lp_modifyLp, if_pos rfl]
  constructor
  · intro h
    have hstatus := h.status r
    have hbuyer := h.buyer r
    have hseller := h.seller r
    have habout := h.about r
    rw [hlp] at hstatus hbuyer hseller habout
    exact ⟨hstatus, hbuyer, hseller, habout⟩
  · rintro ⟨hstatus, hbuyer, hseller, habout⟩
    have hall {β : Type} (p : NXTorrentListing → β) (hp : p (f (dp.lp r)) = p (dp.lp r)) (q : Nat) :
        p ((dp.modifyLp r f).lp q) = p (dp.lp q) := by
      rw [lp_modifyLp]
      split
      · next heq => rw [hp, heq]
      · rfl
    exact ⟨rfl, rfl, hall _ hstatus, hall _ hbuyer, hall _ hseller, hall _ habout⟩

theorem sameTable_buyer_iff {r : Nat} {bits : BitVec 64} :
    SameTable dp (dp.modifyLp r fun l => { l with buyer64bits := bits }) ↔ (dp.lp r).buyer64bits = bits := by
  rw [sameTable_modifyLp_iff]
  exact ⟨fun h => h.2.1.symm, fun h => ⟨rfl, h.symm, rfl, rfl⟩⟩

/-- What is written without a transaction id is there already. -/
theorem sameTable_write_iff (hq : ∀ a, q ≠ .list a) :
    (∀ r ∈ q.target env o dp, SameTable dp (dp.modifyLp r fun l => q.write false l)) ↔ Harmless env o dp q := by
  cases q with
  | list a => exact absurd rfl (hq a)
  | cancel nxtAddr listingid =>
    simp only [sameTable_modifyLp_iff, Harmless, iff_true]
    intro r _
    exact ⟨rfl, rfl, rfl, rfl⟩
  | makeoffer nxtAddr listingid bid comments => exact forall₂_congr fun r _ => sameTable_buyer_iff
  | acceptoffer nxtAddr listingid buyer instructions => exact forall₂_congr fun r _ => sameTable_buyer_iff
  | feedback nxtAddr listingid ratingstr aboutbuyer aboutseller =>
    apply forall₂_congr
    intro r _
    rw [sameTable_modifyLp_iff]
    dsimp only [Request.write]
    split
    · constructor
      · intro h
        exact (congrArg Feedback.rating h.2.2.1).symm
      · intro h
        refine ⟨rfl, rfl, ?_, rfl⟩
        rw [← h]
    · constructor
      · intro h
        exact (congrArg Feedback.rating h.2.2.2).symm
      · intro h
        refine ⟨rfl, rfl, rfl, ?_⟩
        rw [← h]

theorem sameTable_done_iff (hq : ∀ a, q ≠ .list a) (hdone : q.Done env o dp reply)
    (hnull : env.isValidNXTtxid none = false) (hfailed : ¬ reply.accepted o) :
    SameTable dp reply.dp ↔ Harmless env o dp q := by
  rw [← sameTable_write_iff hq]
  unfold Request.Done at hdone
  split at hdone
  · next htarget =>
    rw [hdone.2, htarget]
    refine ⟨fun _ r hr => ?_, fun _ => sameTable_refl dp⟩
    cases hr
  · next r htarget =>
    have ham : o.am = none := by
      by_contra hsome
      exact hfailed ⟨hdone.1, Option.isSome_iff_ne_none.mpr hsome⟩
    rw [hdone.2, htarget, ham, hnull]
    simp only [Option.mem_def, Option.some.injEq, forall_eq']

/-- **A command without an accepted message changes nothing** exactly when its request is harmless: the
records are written to before the answer is there. -/
theorem sameTable_iff (env : Env) (o : Outside) (dp : NXTorrentInfo) (q : Request) (reply : Reply)
    (hnull : env.isValidNXTtxid none = false) (h : runRequest env o dp q = some reply)
    (hfailed : ¬ reply.accepted o) : SameTable dp reply.dp ↔ Harmless env o dp q := by
  cases q with
  | list a =>
    rcases listFunc_cases h with ⟨hdp, -, hstored⟩ | ⟨hcreates, hnone, hframe⟩
    · rw [hdp]
      exact ⟨fun _ => hstored, fun _ => sameTable_refl dp⟩
    · constructor
      · intro hsame
        have hentries := hsame.entries
        rw [hframe.entries, newListing_entries hnone] at hentries
        simp at hentries
      · intro hharmless
        exact absurd hnone (hharmless hcreates)
  | cancel => exact sameTable_done_iff (by simp) (runRequest_done (by simp) h) hnull hfailed
  | makeoffer => exact sameTable_done_iff (by simp) (runRequest_done (by simp) h) hnull hfailed
  | acceptoffer => exact sameTable_done_iff (by simp) (runRequest_done (by simp) h) hnull hfailed
  | feedback => exact sameTable_done_iff (by simp) (runRequest_done (by simp) h) hnull hfailed

end

/-- No message is taken. -/
def refused : Outside where
  am := none
  time := 100
  crc := 0
  freed := []
  stack := 0
  rawtx := ([], [])

/-- A table with one active listing. -/
def oneListing : NXTorrentInfo := updateNXTorrentState wholeEnv {} (listing1 "7")

/-- An offer of two coins for it. -/
def offer1 : Request := .makeoffer "5".toList "1".toList "2".toList []

theorem sameTable_iff_offer1 : ∃ reply, runRequest wholeEnv refused oneListing offer1 = some reply ∧
    (SameTable oneListing reply.dp ↔ Harmless wholeEnv refused oneListing offer1) := by
  have hsome : (runRequest wholeEnv refused oneListing offer1).isSome := by decide +kernel
  obtain ⟨reply, hreply⟩ := Option.isSome_iff_exists.mp hsome
  refine ⟨reply, hreply, sameTable_iff _ _ _ _ _ rfl hreply fun haccepted => ?_⟩
  cases haccepted.2

/-- The offer is not taken, and its buyer stays. -/
theorem not_forall_sameTable :
    ¬ ∀ (env : Env) (o : Outside) (dp : NXTorrentInfo) (q : Request) (reply : Reply), env.isValidNXTtxid none = false →
      runRequest env o dp q = some reply → ¬ reply.accepted o → SameTable dp reply.dp := by
  intro h
  have hbuyer : (runRequest wholeEnv refused oneListing offer1).map (fun reply => (reply.dp.lp 0).buyer64bits) =
      some 5 := by decide +kernel
  obtain ⟨reply, hreply, hfive⟩ := Option.map_eq_some_iff.mp hbuyer
  have hsame := h _ _ _ _ reply rfl hreply fun haccepted => by cases haccepted.2
  exact absurd ((hsame.buyer 0).symm.trans hfive) (by decide +kernel)

end NXTServices.Torrent
