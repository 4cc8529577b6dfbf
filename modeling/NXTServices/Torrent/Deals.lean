import NXTServices.Torrent.Command

/-!
# Who moves a deal, and when: the messages against the commands of `NXTorrent.h`

* `Move` : a change of status and buyer that the tests of `cancel_func` and `makeoffer_func` allow;
* `move_cancelFunc`, `move_makeofferFunc` : these two make no other one;
* `KeepsMachine`, `InOrder`, `along_keepsMachine_iff` : the runs in which the messages make no other one;
* `KeepsParties`, `FromSeller`, `along_keepsParties_iff` : the runs in which only the parties move a deal.
-/

namespace NXTServices.Torrent

/-! ## The state machine of the commands -/

/-- A listing is cancelled when it is active or offered, and gets a new buyer's offer when it is active. -/
structure Move (l l' : NXTorrentListing) : Prop where
  cancelled : l'.status = nxtorrentCancelled → l.status ≠ nxtorrentCancelled →
    l.status = nxtorrentActive ∨ l.status = nxtorrentOffered
  offered : l'.status = nxtorrentOffered → l'.buyer64bits ≠ l.buyer64bits → l.status = nxtorrentActive

instance (l l' : NXTorrentListing) : Decidable (Move l l') :=
  decidable_of_iff (_ ∧ _) ⟨fun h => ⟨h.1, h.2⟩, fun h => ⟨h.cancelled, h.offered⟩⟩

/-- Deals that are over. -/
def Closed (l : NXTorrentListing) : Prop :=
  l.status ∈ [nxtorrentCancelled, nxtorrentAccepted, nxtorrentCompleted]
deriving Decidable

section
variable {env : Env} {o : Outside} {dp : NXTorrentInfo} {m : AMmessage} {l : NXTorrentListing}

theorem move_of_same {l' : NXTorrentListing} (hstatus : l'.status = l.status)
    (hbuyer : l'.buyer64bits = l.buyer64bits) : Move l l' where
  cancelled h hne := absurd (hstatus.symm.trans h) hne
  offered _ hne := absurd hbuyer hne

theorem move_refl (l : NXTorrentListing) : Move l l := move_of_same rfl rfl

theorem not_closed_of_active (h : l.status = nxtorrentActive) : ¬ Closed l := by
  unfold Closed
  rw [h]
  decide

theorem not_closed_of_offered (h : l.status = nxtorrentOffered) : ¬ Closed l := by
  unfold Closed
  rw [h]
  decide

theorem status_of_target_cancel {nxtAddr listingid : Text} {r : Nat}
    (h : (Request.cancel nxtAddr listingid).target env o dp = some r) :
    (dp.lp r).status = nxtorrentOffered ∨ (dp.lp r).status = nxtorrentActive := by
  dsimp only [Request.target] at h
  split at h
  · exact of_decide_eq_true (Option.filter_eq_some_iff.mp h).2
  · cases h

theorem status_of_target_makeoffer {nxtAddr listingid bid comments : Text} {r : Nat}
    (h : (Request.makeoffer nxtAddr listingid bid comments).target env o dp = some r) :
    (dp.lp r).status = nxtorrentActive := by
  dsimp only [Request.target] at h
  split at h
  · exact of_decide_eq_true (Option.filter_eq_some_iff.mp h).2
  · cases h

theorem move_cancelFunc (nxtAddr listingid : Text) (r : Nat) :
    Move (dp.lp r) ((cancelFunc env o dp nxtAddr listingid).dp.lp r) := by
  rw [(cancelFunc_done nxtAddr listingid).lp r]
  split
  · next htarget =>
    have hstatus := status_of_target_cancel htarget
    exact ⟨fun _ _ => hstatus.symm, fun _ hne => absurd rfl hne⟩
  · exact move_refl _

theorem move_makeofferFunc {nxtAddr listingid bid comments : Text} {reply : Reply}
    (h : makeofferFunc env o dp nxtAddr listingid bid comments = some reply) (r : Nat) :
    Move (dp.lp r) (reply.dp.lp r) := by
  rw [(makeofferFunc_done h).lp r]
  split
  · next htarget =>
    have hstatus := status_of_target_makeoffer htarget
    exact ⟨fun _ _ => .inl hstatus, fun _ _ => hstatus⟩
  · exact move_refl _

/-! ## The messages -/

/-- What a message may do to a listing: a move, and nothing to a deal that is over. -/
structure MessageMove (m : AMmessage) (l l' : NXTorrentListing) : Prop extends Move l l' where
  closed : m.funcid = nxtorrentCancel ∨ m.funcid = nxtorrentMakeoffer → Closed l →
    l'.status = l.status ∧ l'.buyer64bits = l.buyer64bits

instance (m : AMmessage) (l l' : NXTorrentListing) : Decidable (MessageMove m l l') :=
  decidable_of_iff (Move l l' ∧ _) ⟨fun h => ⟨h.1, h.2⟩, fun h => ⟨h.toMove, h.closed⟩⟩

/-- The message comes when its listing is in a state for it. -/
def Timely (m : AMmessage) (l : NXTorrentListing) : Prop :=
  (m.funcid = nxtorrentCancel → l.status ∈ [nxtorrentActive, nxtorrentOffered, nxtorrentCancelled]) ∧
    (m.funcid = nxtorrentMakeoffer → l.status = nxtorrentActive ∨ m.senderbits = l.buyer64bits ∧ ¬ Closed l)
deriving Decidable

theorem messageMove_refl (m : AMmessage) (l : NXTorrentListing) : MessageMove m l l :=
  ⟨move_refl l, fun _ _ => ⟨rfl, rfl⟩⟩

theorem messageMove_cancel_iff (h : m.funcid = nxtorrentCancel) :
    MessageMove m l (m.effect l) ↔ l.status ∈ [nxtorrentActive, nxtorrentOffered, nxtorrentCancelled] := by
  rw [AMmessage.effect_cancel h]
  constructor
  · intro hmove
    by_cases hstatus : l.status = nxtorrentCancelled
    · simp [hstatus]
    · rcases hmove.cancelled rfl hstatus with hold | hold <;> simp [hold]
  · intro hstatus
    simp only [List.mem_cons, List.not_mem_nil, or_false] at hstatus
    refine ⟨⟨fun _ hne => ?_, fun hoffered => ?_⟩, fun _ hclosed => ⟨?_, rfl⟩⟩
    · tauto
    · cases hoffered
    · rcases hstatus with hactive | hoffered | hcancelled
      · exact absurd hclosed (not_closed_of_active hactive)
      · exact absurd hclosed (not_closed_of_offered hoffered)
      · exact hcancelled.symm

theorem messageMove_makeoffer_iff (h : m.funcid = nxtorrentMakeoffer) : MessageMove m l (m.effect l) ↔
    l.status = nxtorrentActive ∨ m.senderbits = l.buyer64bits ∧ ¬ Closed l := by
  rw [AMmessage.effect_makeoffer h]
  constructor
  · intro hmove
    have hclosed : ¬ Closed l := by
      intro hclosed
      have hstatus : nxtorrentOffered = l.status := (hmove.closed (.inr h) hclosed).1
      exact not_closed_of_offered hstatus.symm hclosed
    by_cases hbuyer : m.senderbits = l.buyer64bits
    · exact .inr ⟨hbuyer, hclosed⟩
    · exact .inl (hmove.offered rfl hbuyer)
  · intro hstatus
    have hopen : ¬ Closed l := by
      rcases hstatus with hactive | ⟨-, hopen⟩
      · exact not_closed_of_active hactive
      · exact hopen
    refine ⟨⟨fun hcancelled => ?_, fun _ hbuyer => ?_⟩, fun _ hclosed => absurd hclosed hopen⟩
    · cases hcancelled
    · rcases hstatus with hactive | ⟨hsame, -⟩
      · exact hactive
      · exact absurd hsame hbuyer

/-- The other messages cancel nothing and make no offer. -/
theorem move_effect_of_ne (hcancel : m.funcid ≠ nxtorrentCancel) (hmakeoffer : m.funcid ≠ nxtorrentMakeoffer) :
    Move l (m.effect l) := by
  rcases m.funcid_cases with h | h | h | h | h | h
  · rw [AMmessage.effect_list h]
    unfold activated
    split
    · refine ⟨fun hstatus => ?_, fun hstatus => ?_⟩ <;> cases hstatus
    · exact move_of_same rfl rfl
  · exact absurd h hcancel
  · exact absurd h hmakeoffer
  · rw [AMmessage.effect_accept h]
    refine ⟨fun hstatus => ?_, fun hstatus => ?_⟩ <;> cases hstatus
  · rw [AMmessage.effect_feedback h]
    split
    · exact move_of_same rfl rfl
    · split <;> exact move_of_same rfl rfl
  · rw [AMmessage.effect_other h]
    exact move_refl l

theorem messageMove_effect_iff : MessageMove m l (m.effect l) ↔ Timely m l := by
  unfold Timely
  by_cases hcancel : m.funcid = nxtorrentCancel
  · have hne : m.funcid ≠ nxtorrentMakeoffer := by
      rw [hcancel]
      decide
    rw [messageMove_cancel_iff hcancel]
    exact ⟨fun hstatus => ⟨fun _ => hstatus, fun h => absurd h hne⟩, fun h => h.1 hcancel⟩
  · by_cases hmakeoffer : m.funcid = nxtorrentMakeoffer
    · rw [messageMove_makeoffer_iff hmakeoffer]
      exact ⟨fun hstatus => ⟨fun h => absurd h hcancel, fun _ => hstatus⟩, fun h => h.2 hmakeoffer⟩
    · exact ⟨fun _ => ⟨fun h => absurd h hcancel, fun h => absurd h hmakeoffer⟩,
        fun _ => ⟨move_effect_of_ne hcancel hmakeoffer, fun h => absurd h (by tauto)⟩⟩

/-- Every stored listing makes a move, or none. -/
def KeepsMachine (env : Env) (dp : NXTorrentInfo) (m : AMmessage) : Prop :=
  ∀ r ∈ dp.entries, MessageMove m (dp.lp r) ((updateNXTorrentState env dp m).lp r)
deriving Decidable

/-- The message is timely for the listing it is about. -/
def InOrder (env : Env) (dp : NXTorrentInfo) (m : AMmessage) : Prop :=
  ∀ r ∈ m.target env dp, Timely m (dp.lp r)
deriving Decidable

/-- **The messages of a run follow the state machine of the commands** exactly when each of them comes when
its listing is in a state for it: nothing in the code sees to that. -/
theorem along_keepsMachine_iff (env : Env) (es : List Event) :
    Run.Along (step env) (onMessage (KeepsMachine env)) {} es ↔
      Run.Along (step env) (onMessage (InOrder env)) {} es := by
  apply along_onMessage_congr
  intro dp m h
  unfold KeepsMachine InOrder
  rw [h.forall_lp_update (messageMove_refl m)]
  exact forall₂_congr fun r _ => messageMove_effect_iff

/-- A `LIST` message for an inactive listing of this seller. -/
def listing1 (seller : String) : AMmessage where
  funcid := nxtorrentList
  rating := 0
  argjson := some (.object
    [ ("seller".toList, .string seller.toList),
      ("listingid".toList, .string "1".toList),
      ("status".toList, .string "inactive listing".toList) ])
  listingbits := 1
  sender := seller.toList
  receiver := nxtorrentListingaddr
  amTxidbits := 11

/-- Another message about it. -/
def message1 (funcid : Int) (sender receiver : String) : AMmessage where
  funcid := funcid
  rating := 0
  argjson := some (.object [])
  listingbits := 1
  sender := sender.toList
  receiver := receiver.toList
  amTxidbits := 12

/-- A cancelled listing is offered for. -/
theorem not_forall_keepsMachine :
    ¬ ∀ (env : Env) (es : List Event), Run.Along (step env) (onMessage (KeepsMachine env)) {} es := by
  intro h
  have := h wholeEnv [.message (listing1 "7"), .message (message1 nxtorrentCancel "7" "5"),
    .message (message1 nxtorrentMakeoffer "5" "7")]
  exact absurd this (by decide +kernel)

/-! ## The parties -/

/-- What a message may do to a listing when only the parties move a deal. -/
structure PartyMove (m : AMmessage) (l l' : NXTorrentListing) : Prop where
  accepted : l'.status = nxtorrentAccepted → l'.status ≠ l.status ∨ l'.buyer64bits ≠ l.buyer64bits →
    m.senderbits = l.seller64bits
  cancelled : l'.status = nxtorrentCancelled → l'.status ≠ l.status → m.senderbits = l.seller64bits
  rated : l'.feedbackSeller ≠ l.feedbackSeller ∨ l'.feedbackBuyer ≠ l.feedbackBuyer → m.toBuyer l ∨ m.toSeller l

instance (m : AMmessage) (l l' : NXTorrentListing) : Decidable (PartyMove m l l') :=
  decidable_of_iff (_ ∧ _ ∧ _) ⟨fun h => ⟨h.1, h.2.1, h.2.2⟩, fun h => ⟨h.accepted, h.cancelled, h.rated⟩⟩

/-- An acceptance or a cancellation is the seller's, or changes nothing. -/
def FromSeller (m : AMmessage) (l : NXTorrentListing) : Prop :=
  (m.funcid = nxtorrentAccept →
      m.senderbits = l.seller64bits ∨ l.status = nxtorrentAccepted ∧ l.buyer64bits = m.receiverbits) ∧
    (m.funcid = nxtorrentCancel → m.senderbits = l.seller64bits ∨ l.status = nxtorrentCancelled)
deriving Decidable

theorem partyMove_of_same {l' : NXTorrentListing} (hstatus : l'.status ≠ nxtorrentAccepted ∧
      l'.status ≠ nxtorrentCancelled ∨ l'.status = l.status ∧ l'.buyer64bits = l.buyer64bits)
    (hrated : l'.feedbackSeller ≠ l.feedbackSeller ∨ l'.feedbackBuyer ≠ l.feedbackBuyer → m.toBuyer l ∨ m.toSeller l) :
    PartyMove m l l' where
  accepted := by tauto
  cancelled := by tauto
  rated := hrated

theorem partyMove_refl (m : AMmessage) (l : NXTorrentListing) : PartyMove m l l :=
  partyMove_of_same (.inr ⟨rfl, rfl⟩) fun h => by tauto

theorem partyMove_cancel_iff (h : m.funcid = nxtorrentCancel) : PartyMove m l (m.effect l) ↔
    m.senderbits = l.seller64bits ∨ l.status = nxtorrentCancelled := by
  rw [AMmessage.effect_cancel h]
  constructor
  · intro hmove
    by_cases hstatus : l.status = nxtorrentCancelled
    · exact .inr hstatus
    · exact .inl (hmove.cancelled rfl (Ne.symm hstatus))
  · intro hseller
    refine ⟨fun hstatus => ?_, fun _ hne => ?_, fun h => by tauto⟩
    · cases hstatus
    · rcases hseller with hseller | hsame
      · exact hseller
      · exact absurd hsame.symm hne

theorem partyMove_accept_iff (h : m.funcid = nxtorrentAccept) : PartyMove m l (m.effect l) ↔
    m.senderbits = l.seller64bits ∨ l.status = nxtorrentAccepted ∧ l.buyer64bits = m.receiverbits := by
  rw [AMmessage.effect_accept h]
  constructor
  · intro hmove
    by_cases hsame : l.status = nxtorrentAccepted ∧ l.buyer64bits = m.receiverbits
    · exact .inr hsame
    · left
      apply hmove.accepted rfl
      by_contra! hboth
      exact hsame ⟨hboth.1.symm, hboth.2.symm⟩
  · intro hseller
    refine ⟨fun _ hne => ?_, fun hstatus => ?_, fun h => by tauto⟩
    · rcases hseller with hseller | ⟨hstatus, hbuyer⟩
      · exact hseller
      · rcases hne with hne | hne
        · exact absurd hstatus.symm hne
        · exact absurd hbuyer.symm hne
    · cases hstatus

/-- The other messages leave the deal, or open it; a feedback is one party's about the other. -/
theorem partyMove_effect_of_ne (haccept : m.funcid ≠ nxtorrentAccept) (hcancel : m.funcid ≠ nxtorrentCancel) :
    PartyMove m l (m.effect l) := by
  rcases m.funcid_cases with h | h | h | h | h | h
  · rw [AMmessage.effect_list h]
    unfold activated
    split
    · exact partyMove_of_same (.inl ⟨by show nxtorrentActive ≠ _; decide, by show nxtorrentActive ≠ _; decide⟩)
        fun h => by tauto
    · exact partyMove_of_same (.inr ⟨rfl, rfl⟩) fun h => by tauto
  · exact absurd h hcancel
  · rw [AMmessage.effect_makeoffer h]
    exact partyMove_of_same (.inl ⟨by show nxtorrentOffered ≠ _; decide, by show nxtorrentOffered ≠ _; decide⟩)
      fun h => by tauto
  · exact absurd h haccept
  · rw [AMmessage.effect_feedback h]
    split
    · next hto => exact partyMove_of_same (.inr ⟨rfl, rfl⟩) fun _ => .inl hto
    · split
      · next hto => exact partyMove_of_same (.inr ⟨rfl, rfl⟩) fun _ => .inr hto
      · exact partyMove_refl m l
  · rw [AMmessage.effect_other h]
    exact partyMove_refl m l

theorem partyMove_effect_iff : PartyMove m l (m.effect l) ↔ FromSeller m l := by
  unfold FromSeller
  by_cases haccept : m.funcid = nxtorrentAccept
  · have hne : m.funcid ≠ nxtorrentCancel := by
      rw [haccept]
      decide
    rw [partyMove_accept_iff haccept]
    exact ⟨fun hseller => ⟨fun _ => hseller, fun h => absurd h hne⟩, fun h => h.1 haccept⟩
  · by_cases hcancel : m.funcid = nxtorrentCancel
    · rw [partyMove_cancel_iff hcancel]
      exact ⟨fun hseller => ⟨fun h => absurd h haccept, fun _ => hseller⟩, fun h => h.2 hcancel⟩
    · exact ⟨fun _ => ⟨fun h => absurd h haccept, fun h => absurd h hcancel⟩,
        fun _ => partyMove_effect_of_ne haccept hcancel⟩

/-- Only the parties move the stored deals. -/
def KeepsParties (env : Env) (dp : NXTorrentInfo) (m : AMmessage) : Prop :=
  ∀ r ∈ dp.entries, PartyMove m (dp.lp r) ((updateNXTorrentState env dp m).lp r)
deriving Decidable

/-- The message is from the seller of the listing it is about, when it has to be. -/
def Entitled (env : Env) (dp : NXTorrentInfo) (m : AMmessage) : Prop :=
  ∀ r ∈ m.target env dp, FromSeller m (dp.lp r)
deriving Decidable

/-- **Only the parties move the deals of a run** exactly when the others do not try: the code looks at the
sender of a feedback, and at no other one. -/
theorem along_keepsParties_iff (env : Env) (es : List Event) :
    Run.Along (step env) (onMessage (KeepsParties env)) {} es ↔
      Run.Along (step env) (onMessage (Entitled env)) {} es := by
  apply along_onMessage_congr
  intro dp m h
  unfold KeepsParties Entitled
  rw [h.forall_lp_update (partyMove_refl m)]
  exact forall₂_congr fun r _ => partyMove_effect_iff

/-- A third account accepts the offer, in favour of a fourth one. -/
theorem not_forall_keepsParties :
    ¬ ∀ (env : Env) (es : List Event), Run.Along (step env) (onMessage (KeepsParties env)) {} es := by
  intro h
  have := h wholeEnv [.message (listing1 "7"), .message (message1 nxtorrentMakeoffer "5" "7"),
    .message (message1 nxtorrentAccept "8" "9")]
  exact absurd this (by decide +kernel)

end

end NXTServices.Torrent
