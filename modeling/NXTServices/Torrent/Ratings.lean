import NXTServices.Torrent.Search

/-!
# The ratings of a listing

* `InRange`, `Rated` : a rating within the bounds, and a listing with two of them;
* `Rated.reply`, `AllRated.update` : a message puts its rating within the bounds;
* `FeedbackInRange` : a command writes the number that it is given;
* `AllRated.step` : what every step keeps when that number is within the bounds;
* `always_ratingsInRange_iff` : the runs in which all ratings stay there.
-/

namespace NXTServices.Torrent

def InRange (rating : Int) : Prop := -maxNXTorrentRating ≤ rating ∧ rating ≤ maxNXTorrentRating
deriving Decidable

/-- Both of its ratings are within the bounds. -/
def NXTorrentListing.Rated (l : NXTorrentListing) :
    Prop := InRange l.feedbackSeller.rating ∧ InRange l.feedbackBuyer.rating
deriving Decidable

/-- So it is for every stored listing. -/
def RatingsInRange (dp : NXTorrentInfo) : Prop := ∀ r ∈ dp.entries, (dp.lp r).Rated

instance : DecidablePred RatingsInRange :=
  fun dp => inferInstanceAs (Decidable (∀ r ∈ dp.entries, (dp.lp r).Rated))

/-- A command that writes a rating writes one within the bounds. -/
def FeedbackInRange (env : Env) (dp : NXTorrentInfo) : Event → Prop
  | .request (.feedback nxtAddr listingid ratingstr aboutbuyer aboutseller) o =>
    ((Request.feedback nxtAddr listingid ratingstr aboutbuyer aboutseller).target env o dp).isSome →
      InRange (atoi ratingstr)
  | _ => True

instance (env : Env) (dp : NXTorrentInfo) : ∀ e, Decidable (FeedbackInRange env dp e)
  | .request (.feedback nxtAddr listingid ratingstr aboutbuyer aboutseller) o =>
    inferInstanceAs (Decidable
      (((Request.feedback nxtAddr listingid ratingstr aboutbuyer aboutseller).target env o dp).isSome →
        InRange (atoi ratingstr)))
  | .request (.list _) _ | .request (.cancel _ _) _ | .request (.makeoffer _ _ _ _) _
  | .request (.acceptoffer _ _ _ _) _ | .message _ | .listings _ | .status _ _ | .tick _ => .isTrue trivial

/-- Every address, those that are not in use too. -/
def AllRated (dp : NXTorrentInfo) : Prop := ∀ r, (dp.lp r).Rated

section
variable {env : Env} {o : Outside} {dp dp' : NXTorrentInfo} {m : AMmessage} {l : NXTorrentListing} {r : Nat}
  {q : Request}

/-! ## Messages -/

theorem inRange_zero : InRange 0 := by decide

theorem inRange_clampRating (rating : Int) : InRange (clampRating rating) := by
  unfold InRange clampRating maxNXTorrentRating
  split
  · omega
  · split <;> omega

theorem NXTorrentListing.Rated.activated (h : l.Rated) : (activated l).Rated := by
  unfold Torrent.activated
  split
  · exact h
  · exact h

theorem NXTorrentListing.Rated.reply (h : l.Rated) (m : AMmessage) : (reply m l).Rated := by
  unfold Torrent.reply
  split
  · exact h
  · split
    · exact h
    · split
      · exact h
      · split
        · split
          · exact ⟨h.1, inRange_clampRating _⟩
          · split
            · exact ⟨inRange_clampRating _, h.2⟩
            · exact h
        · exact h

theorem AllRated.modifyLp (h : AllRated dp) {f : NXTorrentListing → NXTorrentListing}
    (hf : (dp.lp r).Rated → (f (dp.lp r)).Rated) : AllRated (dp.modifyLp r f) := by
  intro r'
  rw [lp_modifyLp]
  split
  · exact hf (h r)
  · exact h r'

theorem AllRated.addListing (h : AllRated dp) (listingid : Text) : AllRated (addListing dp listingid).2.2 := by
  rcases addListing_cases dp listingid with ⟨r, -, heq⟩ | ⟨-, heq⟩
  · rw [heq]
    exact h
  · rw [heq]
    intro r'
    unfold NXTorrentInfo.lp
    rw [Arena.alloc_cell]
    split
    · exact ⟨inRange_zero, inRange_zero⟩
    · exact h r'

theorem AllRated.storeListing (h : AllRated dp) (r : Nat) (hl : l.Rated) : AllRated (storeListing dp r l) := by
  intro r'
  rw [lp_storeListing]
  split
  · exact hl
  · exact h r'

theorem AllRated.newListing (h : AllRated dp) (hl : l.Rated) : AllRated (newListing dp l) :=
  (h.addListing _).storeListing _ hl

theorem AllRated.activate (h : AllRated dp) (r : Nat) : AllRated (activate dp r) := by
  intro r'
  rw [lp_activate]
  split
  · exact (h r).activated
  · exact h r'

theorem AllRated.listMessage (h : AllRated dp) (hl : l.Rated) (amTxidbits : BitVec 64) :
    AllRated (listMessage dp l amTxidbits) := by
  have hadd := h.addListing l.listingid
  unfold Torrent.listMessage
  generalize Torrent.addListing dp l.listingid = call at hadd ⊢
  obtain ⟨r, created, dp'⟩ := call
  refine AllRated.modifyLp (AllRated.activate ?_ r) id
  cases created with
  | true => exact hadd.storeListing r hl
  | false => exact hadd

theorem AllRated.replyMessage (h : AllRated dp) (m : AMmessage) : AllRated (replyMessage dp m) := by
  have hadd := h.addListing (expandNxt64bits m.listingbits)
  unfold Torrent.replyMessage
  generalize Torrent.addListing dp (expandNxt64bits m.listingbits) = call at hadd ⊢
  obtain ⟨r, created, dp'⟩ := call
  refine AllRated.modifyLp (fun r' => ?_) fun hl => hl.reply m
  rw [lp_replyFeedbacks]
  exact hadd r'

theorem rated_decodeNXTorrentJson (env : Env) (argjson : Json) : (decodeNXTorrentJson env argjson).Rated :=
  ⟨inRange_zero, inRange_zero⟩

/-- **Every message keeps the ratings within the bounds.** -/
theorem AllRated.update (h : AllRated dp) (env : Env) (m : AMmessage) : AllRated (updateNXTorrentState env dp m) := by
  unfold updateNXTorrentState
  split
  · exact h
  · split
    · split
      · exact h.listMessage (rated_decodeNXTorrentJson env _) _
      · exact h
    · exact h.replyMessage m

/-! ## Commands -/

theorem AllRated.runRequest {reply : Reply} (h : AllRated dp) (hok : FeedbackInRange env dp (.request q o))
    (hreply : runRequest env o dp q = some reply) : AllRated reply.dp := by
  have hdone (hq : ∀ a, q ≠ .list a)
      (hwrite : ∀ r, q.target env o dp = some r → (q.write (env.isValidNXTtxid o.am) (dp.lp r)).Rated) :
      AllRated reply.dp := by
    intro r
    rw [(runRequest_done hq hreply).lp]
    split
    · next htarget => exact hwrite r htarget
    · exact h r
  cases q with
  | list a =>
    rcases listFunc_cases hreply with ⟨hdp, -, -⟩ | ⟨hcreates, hnone, -⟩
    · rw [hdp]
      exact h
    · obtain ⟨bits, hdp⟩ := listFunc_dp hreply hcreates hnone
      rw [hdp]
      exact (h.newListing ⟨inRange_zero, inRange_zero⟩).modifyLp id
  | cancel => exact hdone (by simp) fun r _ => h r
  | makeoffer => exact hdone (by simp) fun r _ => h r
  | acceptoffer => exact hdone (by simp) fun r _ => h r
  | feedback nxtAddr listingid ratingstr aboutbuyer aboutseller =>
    refine hdone (by simp) fun r htarget => ?_
    have hrating : InRange (atoi ratingstr) := hok (by rw [htarget]; rfl)
    unfold Request.write
    dsimp only
    split
    · exact ⟨hrating, (h r).2⟩
    · exact ⟨(h r).1, hrating⟩

/-- A rating outside the bounds is there after the command. -/
theorem feedbackInRange_of_request (hwf : Wellformed dp) {reply : Reply}
    (hreply : runRequest env o dp q = some reply) (hrated : RatingsInRange reply.dp) :
    FeedbackInRange env dp (.request q o) := by
  cases q with
  | feedback nxtAddr listingid ratingstr aboutbuyer aboutseller =>
    intro hsome
    obtain ⟨r, htarget⟩ := Option.isSome_iff_exists.mp hsome
    have hdone := runRequest_done (by simp) hreply
    have hmem : r ∈ dp.entries := by
      unfold Request.target at htarget
      dsimp only at htarget
      split at htarget
      · exact hwf.listed _ r (Option.filter_eq_some_iff.mp htarget).1
      · cases htarget
    have hr := hrated r (by rw [hdone.frame.entries]; exact hmem)
    rw [hdone.lp, if_pos htarget] at hr
    unfold Request.write at hr
    dsimp only at hr
    split at hr
    · exact hr.1
    · exact hr.2
  | _ => trivial

/-! ## Runs -/

theorem AllRated.step {e : Event} (h : AllRated dp) (hok : FeedbackInRange env dp e)
    (hstep : step env dp e = some dp') : AllRated dp' := by
  cases e with
  | message m =>
    obtain rfl := Option.some.inj hstep
    exact h.update env m
  | request q o =>
    obtain ⟨reply, hreply, rfl⟩ := Option.map_eq_some_iff.mp hstep
    exact h.runRequest hok hreply
  | listings all =>
    obtain rfl := Option.some.inj hstep
    intro r
    rw [Search.lp_listingsFunc]
    split
    · unfold expired
      split
      · exact h r
      · exact h r
    · exact h r
  | status nxtAddr listingid =>
    obtain rfl := Option.some.inj hstep
    intro r
    unfold statusFunc
    split
    · split
      · exact h r
      · exact h r
    · exact h r
  | tick timestamp =>
    obtain rfl := Option.some.inj hstep
    exact h

end

/-- **The ratings stay within the bounds in a run** exactly when each command that writes one is given such a
number: the clamp of the messages is missing in `feedback_func`. -/
theorem always_ratingsInRange_iff (env : Env) (es : List Event) :
    Run.Always (step env) RatingsInRange {} es ↔ Run.Along (step env) (FeedbackInRange env) {} es := by
  constructor
  · intro halways
    refine Run.along_of_always Wellformed (fun hstep hwf => hwf.step hstep) (fun {dp e} hwf hrated => ?_)
      halways wellformed_empty
    cases e with
    | request q o =>
      cases hreply : runRequest env o dp q with
      | some reply => exact feedbackInRange_of_request hwf hreply (hrated reply.dp (by simp [step, hreply]))
      | none =>
        cases q with
        | feedback => cases hreply
        | _ => trivial
    | _ => trivial
  · intro hok
    exact Run.always_of_along AllRated (fun dp h r _ => h r) (fun hok hstep h => h.step hok hstep) hok
      fun r => ⟨inRange_zero, inRange_zero⟩

/-- The seller of a listing rates its buyer. -/
theorem not_forall_ratingsInRange :
    ¬∀ (env : Env) (es : List Event), Run.Always (step env) RatingsInRange {} es := by
  intro h
  have hrated := h wholeEnv [.message (listing1 "7"), .message (message1 nxtorrentMakeoffer "5" "7"),
    .request (.feedback "7".toList "1".toList "1000".toList "fine".toList [])
      { am := none, time := 0, crc := 0, freed := [], stack := 0, rawtx := ([], []) }]
  exact absurd hrated (by decide +kernel)

end NXTServices.Torrent
