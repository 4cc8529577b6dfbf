import NXTServices.Torrent.Index

/-!
# What stays of a listing

* `terms` : what the seller says of a listing;
* `Under` : the text is one of those of a record, or stands for one that does not fit;
* `Grows` : what every step does to the records and the search tags: nothing is taken back;
* `Grows.step`, `Grows.run` : a step, and a run;
* `index_sound` : **the index never lies and never forgets**.
-/

namespace NXTServices.Torrent
open Hashtable (storeKey)

/-- What the seller says; messages and commands write to the rest. -/
def NXTorrentListing.terms (l : NXTorrentListing) : NXTorrentListing :=
  { l with
    status := 0
    expiration := 0
    buyer64bits := 0#64
    listingAMbits := 0#64
    feedbackSeller := {}
    feedbackBuyer := {} }

/-- `123456` is the key of the texts that do not fit. -/
def Under (key : Text) (keys : List Text) : Prop :=
  key ∈ keys ∨ key = "123456".toList ∧ ∃ text ∈ keys, 16 ≤ text.length

/-- Nothing is taken back, and what is found anew has the text. -/
structure Grows (dp dp' : NXTorrentInfo) : Prop where
  entries : ∀ r ∈ dp.entries, r ∈ dp'.entries
  terms : ∀ r ∈ dp.entries, (dp'.lp r).terms = (dp.lp r).terms
  categories : ∀ {key r}, r ∈ found dp.categories key → r ∈ found dp'.categories key
  tags : ∀ {key r}, r ∈ found dp.tags key → r ∈ found dp'.tags key
  category : ∀ {key r}, r ∈ found dp'.categories key → r ∈ found dp.categories key ∨ Under key (dp'.lp r).category
  tag : ∀ {key r}, r ∈ found dp'.tags key → r ∈ found dp.tags key ∨ Under key (dp'.lp r).tag

/-- What is found under a text has it. -/
structure Sound (dp : NXTorrentInfo) : Prop where
  category : ∀ {key r}, r ∈ found dp.categories key → Under key (dp.lp r).category
  tag : ∀ {key r}, r ∈ found dp.tags key → Under key (dp.lp r).tag

section
variable {env : Env} {o : Outside} {dp dp' dp'' : NXTorrentInfo} {m : AMmessage} {l l' : NXTorrentListing} {r : Nat}

/-! ## Writes to a record -/

theorem proj_of_terms {β : Type} (p : NXTorrentListing → β) (hp : ∀ l, p l.terms = p l) (h : l.terms = l'.terms) :
    p l = p l' := by
  rw [← hp l, h, hp]

theorem category_of_terms (h : l.terms = l'.terms) : l.category = l'.category :=
  proj_of_terms NXTorrentListing.category (fun _ => rfl) h

theorem listingid_of_terms (h : l.terms = l'.terms) : l.listingid = l'.listingid :=
  proj_of_terms NXTorrentListing.listingid (fun _ => rfl) h

theorem tag_of_terms (h : l.terms = l'.terms) : l.tag = l'.tag := proj_of_terms NXTorrentListing.tag (fun _ => rfl) h

theorem terms_activated (l : NXTorrentListing) : (activated l).terms = l.terms := by
  unfold activated
  split <;> rfl

theorem terms_expired (timestamp : Int) (l : NXTorrentListing) : (expired timestamp l).terms = l.terms := by
  unfold expired
  split <;> rfl

theorem terms_reply (m : AMmessage) (l : NXTorrentListing) : (reply m l).terms = l.terms := by
  unfold reply
  split
  · rfl
  · split
    · rfl
    · split
      · rfl
      · split
        · split
          · rfl
          · split <;> rfl
        · rfl

theorem terms_effect (m : AMmessage) (l : NXTorrentListing) : (m.effect l).terms = l.terms := by
  unfold AMmessage.effect
  split
  · exact terms_activated l
  · exact terms_reply m l

theorem Request.terms_write (valid : Bool) (q : Request) (l : NXTorrentListing) :
    (q.write valid l).terms = l.terms := by
  cases q with
  | feedback =>
    unfold Request.write
    dsimp only
    split <;> rfl
  | list | cancel | makeoffer | acceptoffer => rfl

/-! ## The parts of a step -/

theorem Grows.refl (dp : NXTorrentInfo) : Grows dp dp := ⟨fun _ => id, fun _ _ => rfl, id, id, .inl, .inl⟩

theorem Fits.mem_entries {table : Table (List Nat)} {key : Text} {entries : List Nat} (h : Fits table)
    (hentries : ∀ key, ∀ r ∈ tagged table key, r ∈ entries) (hr : r ∈ found table key) : r ∈ entries := by
  rw [found_of_valid (h.valid_of_mem hr)] at hr
  exact hentries key r hr

theorem Filed.mem_category {key : Text} (h : Filed dp) (hr : r ∈ found dp.categories key) : r ∈ dp.entries :=
  h.categories.mem_entries h.wellformed.category hr

theorem Filed.mem_tag {key : Text} (h : Filed dp) (hr : r ∈ found dp.tags key) : r ∈ dp.entries :=
  h.tags.mem_entries h.wellformed.tag hr

theorem under_of_storeKey {key : Text} {keys : List Text}
    (h : ∃ key' ∈ keys, key' ≠ [] ∧ key = storeKey 16 key') : Under key keys := by
  obtain ⟨key', hmem, hne, rfl⟩ := h
  by_cases hshort : key'.length < 16
  · rw [← eq_storeKey hne hshort]
    exact .inl hmem
  · refine .inr ⟨if_pos (.inr (by omega)), key', hmem, by omega⟩

theorem Grows.trans (h : Grows dp dp') (h' : Grows dp' dp'') (hfiled : Filed dp') : Grows dp dp'' where
  entries r hr := h'.entries r (h.entries r hr)
  terms r hr := (h'.terms r (h.entries r hr)).trans (h.terms r hr)
  categories hr := h'.categories (h.categories hr)
  tags hr := h'.tags (h.tags hr)
  category {key r} hr := by
    rcases h'.category hr with hmid | hunder
    · rw [category_of_terms (h'.terms r (hfiled.mem_category hmid))]
      exact h.category hmid
    · exact .inr hunder
  tag {key r} hr := by
    rcases h'.tag hr with hmid | hunder
    · rw [tag_of_terms (h'.terms r (hfiled.mem_tag hmid))]
      exact h.tag hmid
    · exact .inr hunder

theorem Grows.of_frame (h : Frame dp dp') (hterms : ∀ r, (dp'.lp r).terms = (dp.lp r).terms) : Grows dp dp' where
  entries _ hr := h.entries ▸ hr
  terms r _ := hterms r
  categories hr := h.categories ▸ hr
  tags hr := h.tags ▸ hr
  category hr := .inl (h.categories ▸ hr)
  tag hr := .inl (h.tags ▸ hr)

theorem Grows.modifyLp (dp : NXTorrentInfo) (r : Nat) {f : NXTorrentListing → NXTorrentListing}
    (hf : ∀ l, (f l).terms = l.terms) : Grows dp (dp.modifyLp r f) where
  entries _ := id
  terms _ _ := Arena.modify_proj NXTorrentListing.terms hf _
  categories := id
  tags := id
  category := .inl
  tag := .inl

/-- A record more, which has no tags yet. -/
theorem Grows.newListing (hwf : Wellformed dp) (hnone : dp.listings (storeKey 64 l.listingid) = none) :
    Grows dp (newListing dp l) where
  entries r hr := by
    rw [newListing_entries hnone]
    exact List.mem_append_left _ hr
  terms r hr := by
    have hlt := hwf.entry r hr
    rw [lp_newListing hnone, if_neg (by omega)]
  categories hr := by rwa [newListing_categories hnone]
  tags hr := by rwa [newListing_tags hnone]
  category hr := .inl (by rwa [newListing_categories hnone] at hr)
  tag hr := .inl (by rwa [newListing_tags hnone] at hr)

theorem Grows.addListing (hwf : Wellformed dp) (listingid : Text) : Grows dp (addListing dp listingid).2.2 := by
  rcases addListing_cases dp listingid with ⟨r, -, heq⟩ | ⟨-, heq⟩
  · rw [heq]
    exact .refl dp
  · rw [heq]
    refine ⟨fun r hr => List.mem_append_left _ hr, fun r hr => ?_, id, id, .inl, .inl⟩
    exact congrArg NXTorrentListing.terms (Arena.alloc_cell_of_lt (hwf.entry r hr))

/-- An inactive record is found under its texts from now on. -/
theorem Grows.activate (dp : NXTorrentInfo) (r' : Nat) : Grows dp (activate dp r') where
  entries r hr := by rwa [activate_entries]
  terms r _ := lp_activate_proj NXTorrentListing.terms terms_activated r'
  categories hr := mem_activate_categories.mpr (.inl hr)
  tags hr := mem_activate_tags.mpr (.inl hr)
  category hr := by
    rcases mem_activate_categories.mp hr with hold | ⟨-, rfl, hunder⟩
    · exact .inl hold
    · right
      rw [activate_category]
      exact under_of_storeKey hunder
  tag hr := by
    rcases mem_activate_tags.mp hr with hold | ⟨-, rfl, hunder⟩
    · exact .inl hold
    · right
      rw [activate_tag]
      exact under_of_storeKey hunder

/-! ## Steps -/

theorem Grows.listMessage (h : Filed dp) (l : NXTorrentListing) (amTxidbits : BitVec 64) :
    Grows dp (listMessage dp l amTxidbits) := by
  have hactivated {dp : NXTorrentInfo} {r : Nat} (h : Filed dp) (hr : r ∈ dp.entries) :
      Grows dp ((Torrent.activate dp r).modifyLp r fun l => { l with listingAMbits := amTxidbits }) :=
    (Grows.activate dp r).trans (.modifyLp _ r fun _ => rfl) (filed_activate h hr)
  cases hr : dp.listings (storeKey 64 l.listingid) with
  | some r =>
    rw [listMessage_old hr]
    exact hactivated h (h.wellformed.listed _ r hr)
  | none =>
    have hnew := filed_newListing h hr
    rw [listMessage_new hr]
    exact (Grows.newListing h.wellformed hr).trans (hactivated hnew (next_mem_newListing hr)) hnew

theorem Grows.replyMessage (h : Filed dp) (m : AMmessage) : Grows dp (replyMessage dp m) := by
  have hadd := Grows.addListing h.wellformed (expandNxt64bits m.listingbits)
  have hmid : Filed (Torrent.addListing dp (expandNxt64bits m.listingbits)).2.2 := by
    rcases @addListing_cases_newListing dp (expandNxt64bits m.listingbits) with hsame | ⟨hnone, hnew⟩
    · rwa [hsame]
    · rw [hnew]
      exact filed_newListing h hnone
  unfold Torrent.replyMessage
  generalize Torrent.addListing dp (expandNxt64bits m.listingbits) = call at hadd hmid ⊢
  obtain ⟨r, created, mid⟩ := call
  have hframe := frame_replyFeedbacks mid m (mid.lp r)
  have hfeedbacks : Grows mid (replyFeedbacks mid m (mid.lp r)) := .of_frame hframe fun r => by rw [lp_replyFeedbacks]
  exact hadd.trans (hfeedbacks.trans (.modifyLp _ r (terms_reply m)) (hframe.filed hmid)) hmid

theorem Grows.update (h : Filed dp) (m : AMmessage) : Grows dp (updateNXTorrentState env dp m) := by
  unfold updateNXTorrentState
  split
  · exact .refl dp
  · split
    · split
      · exact .listMessage h _ _
      · exact .refl dp
    · exact .replyMessage h m

theorem Grows.runRequest (hfiled : Filed dp) {q : Request} {reply : Reply} (h : runRequest env o dp q = some reply) :
    Grows dp reply.dp := by
  by_cases hlist : ∃ a, q = .list a
  · obtain ⟨a, rfl⟩ := hlist
    rcases listFunc_cases h with ⟨hdp, -⟩ | ⟨hcreates, hnone, -⟩
    · rw [hdp]
      exact .refl dp
    · obtain ⟨bits, hdp⟩ := listFunc_dp h hcreates hnone
      rw [hdp]
      exact (Grows.newListing hfiled.wellformed hnone).trans (.modifyLp _ _ fun _ => rfl)
        (filed_newListing hfiled hnone)
  · have hdone := runRequest_done (fun a heq => hlist ⟨a, heq⟩) h
    refine .of_frame hdone.frame fun r => ?_
    rw [hdone.lp]
    split
    · exact q.terms_write _ _
    · rfl

theorem terms_listingsFunc (dp : NXTorrentInfo) (all : List Nat) (r : Nat) :
    ((listingsFunc dp all).lp r).terms = (dp.lp r).terms := by
  unfold listingsFunc
  generalize all.take 101 = first
  induction first generalizing dp with
  | nil => rfl
  | cons q first ih =>
    rw [List.foldl_cons, ih]
    exact Arena.modify_proj NXTorrentListing.terms (terms_expired dp.timestamp) r

/-- **No step takes anything back.** -/
theorem Grows.step {e : Event} (h : Filed dp) (hstep : step env dp e = some dp') : Grows dp dp' := by
  cases e with
  | message m =>
    obtain rfl := Option.some.inj hstep
    exact .update h m
  | request q o =>
    obtain ⟨reply, hreply, rfl⟩ := Option.map_eq_some_iff.mp hstep
    exact .runRequest h hreply
  | listings all =>
    obtain rfl := Option.some.inj hstep
    exact .of_frame (frame_listingsFunc dp all) (terms_listingsFunc dp all)
  | status nxtAddr listingid =>
    obtain rfl := Option.some.inj hstep
    refine .of_frame (frame_statusFunc dp nxtAddr listingid) fun r => ?_
    unfold statusFunc
    split
    · split <;> rfl
    · rfl
  | tick timestamp =>
    obtain rfl := Option.some.inj hstep
    exact ⟨fun _ => id, fun _ _ => rfl, id, id, .inl, .inl⟩

theorem Grows.run {es : List Event} (h : Filed dp ∧ Ready dp) (hrun : Run.run (Torrent.step env) dp es = some dp') :
    Grows dp dp' ∧ Filed dp' ∧ Ready dp' := by
  have hok : Run.Along (Torrent.step env) (fun _ _ => True) dp es := Run.along_of_forall (fun _ _ _ => trivial) dp
  exact @Run.run_invariant _ _ _ _ _ _ (fun mid => Grows dp mid ∧ Filed mid ∧ Ready mid)
    (fun _ hstep h => ⟨h.1.trans (.step h.2.1 hstep) h.2.1, filed_ready_step h.2.1 h.2.2 hstep⟩) _ hok hrun
    ⟨.refl dp, h⟩

theorem Grows.sound (h : Grows dp dp') (hfiled : Filed dp) (hsound : Sound dp) : Sound dp' where
  category {key r} hr := by
    rcases h.category hr with hold | hunder
    · rw [category_of_terms (h.terms r (hfiled.mem_category hold))]
      exact hsound.category hold
    · exact hunder
  tag {key r} hr := by
    rcases h.tag hr with hold | hunder
    · rw [tag_of_terms (h.terms r (hfiled.mem_tag hold))]
      exact hsound.tag hold
    · exact hunder

theorem sound_empty : Sound {} where
  category hr := by simp [found, Table.empty] at hr
  tag hr := by simp [found, Table.empty] at hr

end

/-- **The index never lies and never forgets**: a record that the search tag of a text lists has the text, is listed
there once, and whatever comes later it is listed there and is what its seller said it was. The tag of `123456` also
lists the records whose texts do not fit. -/
theorem index_sound (env : Env) {es es' : List Event} {dp dp' : NXTorrentInfo}
    (hrun : Run.run (step env) {} es = some dp) (hlater : Run.run (step env) dp es' = some dp') (key : Text) (r : Nat) :
    (r ∈ found dp.categories key → Under key (dp.lp r).category ∧ (found dp.categories key).count r = 1 ∧
      r ∈ found dp'.categories key ∧ (dp'.lp r).terms = (dp.lp r).terms) ∧
    (r ∈ found dp.tags key → Under key (dp.lp r).tag ∧ (found dp.tags key).count r = 1 ∧
      r ∈ found dp'.tags key ∧ (dp'.lp r).terms = (dp.lp r).terms) := by
  obtain ⟨hgrown, hfiled, hready⟩ := Grows.run ⟨filed_empty, ready_empty⟩ hrun
  have hsound := hgrown.sound filed_empty sound_empty
  obtain ⟨hlater, -⟩ := Grows.run ⟨hfiled, hready⟩ hlater
  constructor
  · intro hr
    exact ⟨hsound.category hr, (hfiled.categories.count_eq_one_iff hfiled.wellformed.nodupCategories key).mpr hr,
      hlater.categories hr, hlater.terms r (hfiled.mem_category hr)⟩
  · intro hr
    exact ⟨hsound.tag hr, (hfiled.tags.count_eq_one_iff hfiled.wellformed.nodupTags key).mpr hr, hlater.tags hr,
      hlater.terms r (hfiled.mem_tag hr)⟩

/-- A listing of books. -/
def bookListing : AMmessage := { listing1 "7" with
  argjson := some (.object
    [ ("seller".toList, .string "7".toList),
      ("listingid".toList, .string "1".toList),
      ("category1".toList, .string "books".toList),
      ("status".toList, .string "inactive listing".toList) ]) }

/-- It is cancelled, and still found. -/
theorem index_sound_book : ∃ dp,
    Run.run (step wholeEnv) {} [.message bookListing, .message (message1 nxtorrentCancel "7" "5")] = some dp ∧
      0 ∈ found dp.categories "books".toList := by
  refine ⟨_, rfl, ?_⟩
  have hfound : 0 ∈ found (updateNXTorrentState wholeEnv {} bookListing).categories "books".toList := by decide +kernel
  obtain ⟨-, -, hstays, -⟩ :=
      (@index_sound wholeEnv [.message bookListing] [.message (message1 nxtorrentCancel "7" "5")]
    _ _ rfl rfl "books".toList 0).1 hfound
  exact hstays

end NXTServices.Torrent
