import NXTServices.Crc
import NXTServices.Torrent.Failed
import NXTServices.Torrent.Stray

/-!
# The ids of new listings

* `accountBits`, `ListArgs.content`, `ListArgs.crc` : the account, the bytes that are summed, and the checksum of
  `list_func`;
* `newListingid_inj` : an id is the folded account and the checksum;
* `listings_of_run`, `exists_creates_of_listed` : what is stored stays stored, and what it was stored by;
* `second_listing` : **when the next listing of an account is taken for one that is there**.

The bytes of the structure are those of any fixed `layout`.
-/

namespace NXTServices.Torrent
open Gateway (int32 safecopy)
open Hashtable (storeKey storeKey_of_valid ValidKey)
open Crc (Burst crc32 crc32_crc32 crc32_nil crc32_burst)

/-! ## The checksum -/

/-- `hashval >> 32`. -/
def accountBits (nxt64bits : BitVec 64) : BitVec 32 :=
  (((nxt64bits ^^^ nxt64bits <<< 32) &&& ~~~0xffffffff#64) >>> 32).setWidth 32

/-- The bytes of a C string. -/
def bytesOf (str : Text) : List (BitVec 8) := str.map fun c => BitVec.ofNat 8 c.toNat

/-- The structure `L` when it is summed: it has no id, no texts and no times. -/
def ListArgs.draft (env : Env) (a : ListArgs) : NXTorrentListing :=
  let sub := a.subatomic env
  let duration := int32 (3600 * atoi a.duration)
  { seller64bits := calcNxt64bits a.nxtAddr
    assetidbits := if sub.coinid = env.nxtCoinid then calcNxt64bits sub.coinaddrAssetid else 0#64
    price := env.satoshis a.pricestr
    amount := sub.amount
    coinid := sub.coinid
    duration := if duration ≤ 0 then 24 * 3600 else duration
    category := a.categories.map fun category => safecopy category 15
    tag := a.tags.map fun tag => safecopy tag 15
    coinaddr := if sub.coinid = env.nxtCoinid then [] else safecopy sub.coinaddrAssetid 64
    title := safecopy a.title 127 }

variable {layout : NXTorrentListing → List (BitVec 8)} {env : Env}

/-- The checksum, of the structure, the URI and the description, each from where the one before ended. -/
def ListArgs.crc (layout : NXTorrentListing → List (BitVec 8)) (env : Env) (a : ListArgs) : BitVec 32 :=
  let crc := crc32 (accountBits (calcNxt64bits a.nxtAddr)) (layout (a.draft env))
  let crc := if a.uri ≠ [] then crc32 crc (bytesOf a.uri) else crc
  if a.description ≠ [] then crc32 crc (bytesOf a.description) else crc

/-- All the bytes that are summed, in a row. -/
def ListArgs.content (layout : NXTorrentListing → List (BitVec 8)) (env : Env) (a : ListArgs) : List (BitVec 8) :=
  layout (a.draft env) ++ bytesOf (a.uri ++ a.description)

theorem listing_eq_draft (o : Outside) (a : ListArgs) : a.listing env o = { a.draft env with
    listing64bits := calcNxt64bits (newListingid (calcNxt64bits a.nxtAddr) o.crc)
    listingid := newListingid (calcNxt64bits a.nxtAddr) o.crc
    descr := if a.description ≠ [] then some a.description else none
    uri := if a.uri ≠ [] then some a.uri else none
    listedtime := o.time
    expiration := o.time + (a.draft env).duration } := by
  unfold ListArgs.listing ListArgs.draft
  rfl

theorem crc32_text (crc : BitVec 32) (str : Text) :
    (if str ≠ [] then crc32 crc (bytesOf str) else crc) = crc32 crc (bytesOf str) := by
  split
  · rfl
  · next h =>
    rw [not_not.mp h]
    exact (crc32_nil crc).symm

theorem bytesOf_append (str str' : Text) : bytesOf (str ++ str') = bytesOf str ++ bytesOf str' := List.map_append

theorem crc_eq_content (a : ListArgs) :
    a.crc layout env = crc32 (accountBits (calcNxt64bits a.nxtAddr)) (a.content layout env) := by
  rw [ListArgs.crc, crc32_text, crc32_text, crc32_crc32, crc32_crc32, ListArgs.content, bytesOf_append]

/-! ## Ids -/

/-- The bits of an id: the checksum at the bottom, the account above. -/
theorem getLsbD_hashval (nxt64bits : BitVec 64) (crc : BitVec 32) (i : Nat) :
    (((nxt64bits ^^^ nxt64bits <<< 32) &&& ~~~0xffffffff#64) ||| crc.setWidth 64).getLsbD i =
      if i < 32 then crc.getLsbD i else (accountBits nxt64bits).getLsbD (i - 32) := by
  have hmask : (0xffffffff#64).getLsbD i = decide (i < 32) := by
    rw [show (0xffffffff#64) = BitVec.setWidth 64 (BitVec.allOnes 32) from rfl, BitVec.getLsbD_setWidth,
      BitVec.getLsbD_allOnes]
    by_cases hi : i < 32
    · simp [hi, show i < 64 by omega]
    · simp [hi]
  by_cases hi : i < 32
  · rw [if_pos hi, BitVec.getLsbD_or, BitVec.getLsbD_and, BitVec.getLsbD_not, hmask, BitVec.getLsbD_setWidth]
    simp [hi, show i < 64 by omega]
  · have hhigh : (crc.setWidth 64).getLsbD i = false := by
      rw [BitVec.getLsbD_setWidth, BitVec.getLsbD_of_ge crc i (by omega), Bool.and_false]
    rw [if_neg hi, BitVec.getLsbD_or, hhigh, Bool.or_false, accountBits, BitVec.getLsbD_setWidth,
      BitVec.getLsbD_ushiftRight, Nat.add_sub_cancel' (by omega)]
    by_cases htop : i < 64
    · simp [show i - 32 < 32 by omega]
    · rw [BitVec.getLsbD_of_ge _ i (by omega), Bool.and_false]

theorem newListingid_inj {nxt64bits nxt64bits' : BitVec 64} {crc crc' : BitVec 32} :
    newListingid nxt64bits crc = newListingid nxt64bits' crc' ↔
      accountBits nxt64bits = accountBits nxt64bits' ∧ crc = crc' := by
  constructor
  · intro h
    have hval := Function.LeftInverse.injective calcNxt64bits_expandNxt64bits h
    have hbit (i : Nat) := congrArg (fun v => v.getLsbD i) hval
    simp only [getLsbD_hashval] at hbit
    constructor
    · apply BitVec.eq_of_getLsbD_eq
      intro i _
      have := hbit (32 + i)
      rwa [if_neg (by omega), if_neg (by omega), Nat.add_sub_cancel_left] at this
    · apply BitVec.eq_of_getLsbD_eq
      intro i hi
      have := hbit i
      rwa [if_pos hi, if_pos hi] at this
  · rintro ⟨haccount, rfl⟩
    apply congrArg expandNxt64bits
    apply BitVec.eq_of_getLsbD_eq
    intro i _
    rw [getLsbD_hashval, getLsbD_hashval, haccount]

/-! ## Runs -/

section
variable {dp dp' : NXTorrentInfo} {a : ListArgs} {o : Outside} {reply : Reply} {key : Text} {r : Nat}

theorem listings_addListing_of_some (h : dp.listings key = some r) (listingid : Text) :
    (addListing dp listingid).2.2.listings key = some r := by
  by_cases hkey : key = storeKey 64 listingid
  · rcases addListing_cases dp listingid with ⟨r', -, heq⟩ | ⟨hnone, -⟩
    · rwa [heq]
    · rw [← hkey, h] at hnone
      cases hnone
  · rwa [listings_addListing_of_ne hkey]

theorem listings_update_of_some (h : dp.listings key = some r) (m : AMmessage) :
    (updateNXTorrentState env dp m).listings key = some r := by
  unfold updateNXTorrentState
  split
  · exact h
  · split
    · split
      · next argjson _ =>
        by_cases hkey : key = storeKey 64 (decodeNXTorrentJson env argjson).listingid
        · rcases addListing_cases dp (decodeNXTorrentJson env argjson).listingid with ⟨r', -, heq⟩ | ⟨hnone, -⟩
          · unfold listMessage
            rw [heq]
            exact (congrFun (listings_activate r') key).trans h
          · rw [← hkey, h] at hnone
            cases hnone
        · rwa [listings_listMessage_of_ne m.amTxidbits hkey]
      · exact h
    · show (replyFeedbacks _ m _).listings key = _
      rw [(frame_replyFeedbacks _ m _).listings]
      exact listings_addListing_of_some h _

/-- **What is stored stays stored**, under the same key. -/
theorem listings_step_of_some {e : Event} (hstep : step env dp e = some dp') (h : dp.listings key = some r) :
    dp'.listings key = some r := by
  by_cases hkey : e.key env = some key
  · cases e with
    | message m =>
      obtain rfl := Option.some.inj hstep
      exact listings_update_of_some h m
    | request q o =>
      obtain ⟨reply, hreply, rfl⟩ := Option.map_eq_some_iff.mp hstep
      rcases frame_runRequest hreply with hframe | ⟨a, rfl, hnone, -⟩
      · exact (congrFun hframe.listings key).trans h
      · have hsame : storeKey 64 (a.listing env o).listingid = key := Option.some.inj hkey
        rw [hsame, h] at hnone
        cases hnone
    | listings | status | tick => cases hkey
  · rwa [step_listings_of_ne hstep hkey]

theorem listings_of_run {es : List Event} (hrun : Run.run (step env) dp es = some dp')
    (h : dp.listings key = some r) : dp'.listings key = some r := by
  have hok : Run.Along (step env) (fun _ _ => True) dp es := Run.along_of_forall (fun _ _ _ => trivial) dp
  exact @Run.run_invariant _ _ _ _ _ _ (fun dp => dp.listings key = some r)
    (fun _ hstep h => listings_step_of_some hstep h) _ hok hrun h

theorem exists_listings_listFunc (h : listFunc env o dp a = some reply) (hcreates : a.creates env)
    (hvalid : ValidKey 64 (a.listing env o).listingid) :
    ∃ r, reply.dp.listings (a.listing env o).listingid = some r := by
  have hkey := storeKey_of_valid hvalid.1 hvalid.2
  rcases listFunc_cases h with ⟨hdp, -, hthere⟩ | ⟨-, hnone, hframe⟩
  · rw [hdp]
    have := hthere hcreates
    rw [hkey] at this
    exact Option.ne_none_iff_exists'.mp this
  · rw [hframe.listings]
    exact ⟨_, newListing_listings hnone hvalid⟩

/-- The event is a command that creates the listing with the id. -/
def Creates (env : Env) (listingid : Text) (e : Event) : Prop :=
  ∃ a o, e = .request (.list a) o ∧ a.creates env ∧ (a.listing env o).listingid = listingid

theorem newListing_listings_none {l : NXTorrentListing} (hnone : dp.listings (storeKey 64 l.listingid) = none)
    (h : storeKey 64 l.listingid ≠ l.listingid) : (newListing dp l).listings (storeKey 64 l.listingid) = none := by
  unfold newListing storeListing
  rw [addListing_of_none hnone]
  dsimp only
  rw [if_neg h, Function.update_self]

theorem step_listings_none {e : Event} (hstep : step env dp e = some dp')
    (hmessage : ∀ m, e = .message m → m.key env ≠ some key) (hcreates : ¬Creates env key e)
    (h : dp.listings key = none) : dp'.listings key = none := by
  by_cases hkey : e.key env = some key
  · cases e with
    | message m => exact absurd hkey (hmessage m rfl)
    | request q o =>
      obtain ⟨reply, hreply, rfl⟩ := Option.map_eq_some_iff.mp hstep
      cases q with
      | list a =>
        rcases listFunc_cases hreply with ⟨hdp, -⟩ | ⟨hyes, hnone, hframe⟩
        · rwa [hdp]
        · by_cases hid : (a.listing env o).listingid = key
          · exact absurd ⟨a, o, rfl, hyes, hid⟩ hcreates
          · have hsame : storeKey 64 (a.listing env o).listingid = key := Option.some.inj hkey
            rw [hframe.listings, ← hsame]
            exact newListing_listings_none hnone fun heq => hid (heq.symm.trans hsame)
      | cancel | makeoffer | acceptoffer | feedback => cases hkey
    | listings | status | tick => cases hkey
  · rwa [step_listings_of_ne hstep hkey]

theorem listed_of_mem {es : List Event} (hrun : Run.run (step env) {} es = some dp) (hvalid : ValidKey 64 key)
    {e : Event} (he : e ∈ es) (hcreates : Creates env key e) : ∃ r, dp.listings key = some r := by
  obtain ⟨b, o, rfl, hyes, rfl⟩ := hcreates
  obtain ⟨before, after, rfl⟩ := List.append_of_mem he
  rw [Run.run_append] at hrun
  obtain ⟨mid, -, hrest⟩ := Option.bind_eq_some_iff.mp hrun
  obtain ⟨made, hmade, hafter⟩ := Option.bind_eq_some_iff.mp hrest
  obtain ⟨reply, hreply, rfl⟩ := Option.map_eq_some_iff.mp hmade
  obtain ⟨r, hr⟩ := exists_listings_listFunc hreply hyes hvalid
  exact ⟨r, listings_of_run hafter hr⟩

/-- **What a listing was stored by**: where no message asks for its id, a command that creates it. -/
theorem exists_creates_of_listed {es : List Event} (hrun : Run.run (step env) {} es = some dp)
    (hmessages : ∀ m, .message m ∈ es → m.key env ≠ some key) (hstored : dp.listings key ≠ none) :
    ∃ e ∈ es, Creates env key e := by
  by_contra hnone
  push Not at hnone
  apply hstored
  have hok : Run.Along (step env) (fun _ e => (∀ m, e = .message m → m.key env ≠ some key) ∧ ¬Creates env key e)
      {} es :=
    Run.along_of_forall (fun _ e he => ⟨fun m hm => hmessages m (hm ▸ he), hnone e he⟩) _
  exact @Run.run_invariant _ _ _ _ _ _ (fun dp => dp.listings key = none)
    (fun hok hstep h => step_listings_none hstep hok.1 hok.2 h) _ hok hrun rfl

/-! ## The next listing -/

/-- The checksums of the run are those of its listings. -/
def Summed (layout : NXTorrentListing → List (BitVec 8)) (env : Env) (es : List Event) : Prop :=
  ∀ a o, .request (.list a) o ∈ es → o.crc = a.crc layout env

/-- The accounts cannot be told apart in an id. -/
def Folded (a b : ListArgs) : Prop := accountBits (calcNxt64bits b.nxtAddr) = accountBits (calcNxt64bits a.nxtAddr)

def duplicateListing : Text :=
  nxtorrentRetjson (-1) (some "cant create listing".toList) (some (errorText "duplicate listing".toList))

theorem listFunc_of_some (hcreates : a.creates env)
    (h : dp.listings (storeKey 64 (a.listing env o).listingid) = some r) :
    listFunc env o dp a = some { dp := dp, retstr := duplicateListing } := by
  have hadd : addListing dp (a.listing env o).listingid = (r, false, dp) := by simp [addListing, h]
  unfold listFunc
  dsimp only
  rw [if_pos hcreates, hadd]
  rfl

theorem validKey_listingid (h : (a.listing env o).listingid ≠ []) : ValidKey 64 (a.listing env o).listingid := by
  have hid : (a.listing env o).listingid = newListingid (calcNxt64bits a.nxtAddr) o.crc := rfl
  rw [hid] at h ⊢
  unfold newListingid at h ⊢
  apply (storeKey_expandNxt64bits _).1
  intro hzero
  dsimp only at h
  rw [hzero] at h
  exact h rfl

/-- **When the next listing of an account is taken for one that is there.** After any run whose checksums are those
of its listings, a listing with the bytes of an earlier one is refused, wherever the URI ends and the description
begins; one that differs from every earlier one of the account in a burst of at most 32 bits is stored, when no
message asks for its id. -/
theorem second_listing (layout : NXTorrentListing → List (BitVec 8)) (env : Env) {es : List Event} {dp : NXTorrentInfo}
    (hrun : Run.run (step env) {} es = some dp) (hsummed : Summed layout env es) (a : ListArgs) {o : Outside}
    {reply : Reply} (hreply : listFunc env o dp a = some reply) (hcreates : a.creates env)
    (hcrc : o.crc = a.crc layout env) (hid : (a.listing env o).listingid ≠ []) :
    ((∃ b o', .request (.list b) o' ∈ es ∧ b.creates env ∧ Folded a b ∧ b.content layout env = a.content layout env) →
        reply.retstr = duplicateListing ∧ reply.dp = dp) ∧
      ((∀ m, .message m ∈ es → m.key env ≠ some (a.listing env o).listingid) →
        (∀ b o', .request (.list b) o' ∈ es → b.creates env → Folded a b →
          Burst (b.content layout env) (a.content layout env)) →
        ∃ bits, reply.dp.listings (a.listing env o).listingid = some dp.lps.next ∧
          reply.dp.lp dp.lps.next = { a.listing env o with listingAMbits := bits }) := by
  have hvalid : ValidKey 64 (a.listing env o).listingid := validKey_listingid hid
  have hkey := storeKey_of_valid hvalid.1 hvalid.2
  constructor
  · rintro ⟨b, o', hmem, hyes, hfolded, hcontent⟩
    have hsame : (b.listing env o').listingid = (a.listing env o).listingid := by
      apply newListingid_inj.mpr
      refine ⟨hfolded, ?_⟩
      rw [hsummed b o' hmem, hcrc, crc_eq_content, crc_eq_content, hfolded, hcontent]
    obtain ⟨r, hr⟩ := listed_of_mem hrun hvalid hmem ⟨b, o', rfl, hyes, hsame⟩
    rw [← hkey] at hr
    rw [listFunc_of_some hcreates hr] at hreply
    obtain rfl := Option.some.inj hreply
    exact ⟨rfl, rfl⟩
  · intro hmessages hburst
    have hnone : dp.listings (storeKey 64 (a.listing env o).listingid) = none := by
      rw [hkey]
      by_contra hstored
      obtain ⟨e, hmem, b, o', rfl, hyes, hid⟩ := exists_creates_of_listed hrun hmessages hstored
      obtain ⟨hfolded, hsame⟩ := newListingid_inj.mp hid
      rw [hsummed b o' hmem, hcrc, crc_eq_content, crc_eq_content, show accountBits _ =
        accountBits _ from hfolded] at hsame
      exact crc32_burst (hburst b o' hmem hyes hfolded) _ hsame
    obtain ⟨bits, hdp⟩ := listFunc_dp hreply hcreates hnone
    refine ⟨bits (a.listing env o), ?_, ?_⟩
    · rw [hdp]
      exact newListing_listings hnone hvalid
    · rw [hdp, lp_modifyLp, if_pos rfl, lp_newListing hnone, if_pos rfl]

end

/-- A disk for three coins. -/
def diskListing (uri description : String) : ListArgs where
  nxtAddr := "7".toList
  title := "disk".toList
  pricestr := "3".toList
  categories := [[], [], []]
  tags := [[], [], []]
  uri := uri.toList
  description := description.toList
  duration := []
  nxtSubatomic := []

def titleBytes (l : NXTorrentListing) : List (BitVec 8) := bytesOf l.title

/-- No message is taken, and the checksum is that of the listing. -/
def summedOf (a : ListArgs) : Outside := { refused with crc := a.crc titleBytes wholeEnv }

/-- A listing of the disk, and what comes next. -/
def listedDisk : List Event := [.request (.list (diskListing "ab" "c")) (summedOf (diskListing "ab" "c"))]

theorem summed_listedDisk : Summed titleBytes wholeEnv listedDisk := by
  intro a o hmem
  cases List.mem_singleton.mp hmem
  rfl

/-- A letter goes from the URI to the description; another letter is changed. -/
theorem second_listing_moved : ∃ dp reply reply', Run.run (step wholeEnv) {} listedDisk = some dp ∧
    (listFunc wholeEnv (summedOf (diskListing "a" "bc")) dp (diskListing "a" "bc") = some reply ∧
      reply.retstr = duplicateListing ∧ reply.dp = dp) ∧
    listFunc wholeEnv (summedOf (diskListing "ab" "d")) dp (diskListing "ab" "d") = some reply' ∧
      reply'.dp.listings ((diskListing "ab" "d").listing wholeEnv (summedOf (diskListing "ab" "d"))).listingid =
        some dp.lps.next := by
  have hsome : ((Run.run (step wholeEnv) {} listedDisk).bind fun dp =>
      listFunc wholeEnv (summedOf (diskListing "a" "bc")) dp (diskListing "a" "bc")).isSome := by decide +kernel
  obtain ⟨reply, hboth⟩ := Option.isSome_iff_exists.mp hsome
  obtain ⟨dp, hrun, hreply⟩ := Option.bind_eq_some_iff.mp hboth
  have hsome' : ((Run.run (step wholeEnv) {} listedDisk).bind fun dp =>
      listFunc wholeEnv (summedOf (diskListing "ab" "d")) dp (diskListing "ab" "d")).isSome := by decide +kernel
  rw [hrun, Option.bind_some] at hsome'
  obtain ⟨reply', hreply'⟩ := Option.isSome_iff_exists.mp hsome'
  have hmoved := (second_listing titleBytes wholeEnv hrun summed_listedDisk _ hreply (by decide +kernel) rfl
    (by decide +kernel)).1
  have hchanged := (second_listing titleBytes wholeEnv hrun summed_listedDisk _ hreply' (by decide +kernel) rfl
    (by decide +kernel)).2
  have hmessages : ∀ m, .message m ∈ listedDisk → m.key wholeEnv ≠
      some ((diskListing "ab" "d").listing wholeEnv (summedOf (diskListing "ab" "d"))).listingid :=
    fun m hmem => by cases List.mem_singleton.mp hmem
  obtain ⟨bits, hstored, -⟩ := hchanged hmessages fun b o' hmem _ _ => by
    cases List.mem_singleton.mp hmem
    exact ⟨Crc.bits (bytesOf "diskab".toList), Crc.bits (bytesOf "c".toList), Crc.bits (bytesOf "d".toList), [],
      by decide +kernel, by decide +kernel, rfl, by decide +kernel, by decide +kernel⟩
  exact ⟨dp, reply, reply', hrun, ⟨hreply, hmoved ⟨_, _, List.mem_singleton_self _, by decide +kernel, rfl, rfl⟩⟩,
    hreply', hstored⟩

end NXTServices.Torrent
