import NXTServices.Lib.Run
import NXTServices.Torrent.Message

/-!
# Requests about listings: the commands of `NXTorrent.h`

* `Outside` : what a command learns from elsewhere, the answer of `AM_NXTorrent` among it;
* `Reply` : the tables after a command, the message it submits, and the text it returns;
* `listFunc`, `cancelFunc`, `makeofferFunc`, `acceptofferFunc`, `feedbackFunc` : the commands that submit one;
* `Event`, `step` : messages and requests, one after another;
* `Wellformed.step` : each of them keeps the tables wellformed.

A command that reads a null pointer has no reply.
-/

namespace NXTServices.Torrent
open Json hiding null true false
open Gateway (coinidStr int32 safecopy)
open Hashtable (storeKey)

/-! ## Answers -/

def nxtorrentCanceladdr : Text := "1234567890123456789".toList
def nxtorrentListingaddr : Text := nxtorrentCanceladdr

def nxtorrentRetjson (retval : Int) (retmsg : Option Text) (attachment : Option Text) : Text :=
  let retmsg := retmsg.getD
    (if retval < 0 then "error".toList
    else if retval < 9 then nxtorrentStatusStr retval
    else "success".toList)
  let attachment := attachment.getD []
  "\x7b\"retcode\":".toList ++ decimal retval ++ ",\"retmsg\":\"".toList ++ retmsg ++ "\"".toList ++
    (if attachment ≠ [] then ",\"attachment\":".toList ++ attachment else []) ++ "\x7d".toList

def standardAMretstr (status : Int) (retstr : Option Text) : Text :=
  match retstr with
  | some txid =>
    let json := objectOf [("result", some (string "good".toList)), ("AMtxid", some (string txid))]
    nxtorrentRetjson status none (some (cJSONPrint json))
  | none => nxtorrentRetjson (-1) (some "error submitting AM".toList) none

/-- An object of one error and its reason. -/
def errorReason (error : String) (reason : Text) : Text :=
  "\x7b\"error\":\"".toList ++ error.toList ++ "\",\"reason\":\"".toList ++ reason ++ "\"\x7d".toList

def errorText (error : Text) : Text := "\x7b\"error\":\"".toList ++ error ++ "\"\x7d".toList

/-- `am` is the answer of `AM_NXTorrent`, a null pointer when it does not take the message. `freed` is what
stands at a text that has been freed, `stack` at an amount that is not set, and `rawtx` are the two texts of
`calc_raw_NXTtx`. -/
structure Outside where
  am : Option Text
  time : Int
  crc : BitVec 32
  freed : Text
  stack : Int
  rawtx : Text × Text

/-- The arguments of `AM_NXTorrent`. -/
structure AMcall where
  func : Int
  rating : Int
  destaddr : Text
  listingbits : BitVec 64
  jsontxt : Text
deriving DecidableEq

structure Reply where
  dp : NXTorrentInfo
  call : Option AMcall := none
  retstr : Text

/-- Has a message been submitted, and taken? -/
def Reply.accepted (reply : Reply) (o : Outside) : Prop := reply.call.isSome ∧ o.am.isSome
deriving Decidable

/-- The end of a command without a message. -/
def nolisting (dp : NXTorrentInfo) (retstr : Option Text) : Reply where
  dp := dp
  retstr := nxtorrentRetjson (-1) (some "nolisting".toList) retstr

/-- The end of a command with one: the listing gets its new status when the answer is a transaction id. -/
def submit (env : Env) (o : Outside) (dp : NXTorrentInfo) (r : Nat) (call : AMcall) (status : Int) : Reply :=
  let dp := if env.isValidNXTtxid o.am then dp.modifyLp r fun l => { l with status := status } else dp
  { dp := dp, call := some call, retstr := standardAMretstr (dp.lp r).status o.am }

/-! ## The commands -/

/-- Quotes lose their backslashes, and a text in quotes loses these. -/
def unquote : Text → Text
  | '\\' :: '"' :: cs => '"' :: unquote cs
  | c :: cs => c :: unquote cs
  | [] => []

def replaceBackslashquotes (str : Text) : Text :=
  match str with
  | '"' :: cs => if str.getLast? = some '"' then unquote cs.dropLast else unquote str
  | str => unquote str

def atoi (str : Text) : Int := int32 (atol str)

structure ListArgs where
  nxtAddr : Text
  title : Text
  pricestr : Text
  categories : List Text
  tags : List Text
  uri : Text
  description : Text
  duration : Text
  nxtSubatomic : Text

/-- The part of the request that says what is paid in. -/
def ListArgs.subatomic (env : Env) (a : ListArgs) : Subatomic :=
  if a.nxtSubatomic = [] then { coinid := env.nxtCoinid }
  else isvalidNXTsubatomic env (replaceBackslashquotes a.nxtSubatomic)

/-- The id of a new listing: the account, folded, over the checksum. -/
def newListingid (nxt64bits : BitVec 64) (crc : BitVec 32) : Text :=
  let hashval := (nxt64bits ^^^ (nxt64bits <<< 32)) &&& ~~~0xffffffff#64
  expandNxt64bits (hashval ||| crc.setWidth 64)

/-- The listing `L`. -/
def ListArgs.listing (env : Env) (o : Outside) (a : ListArgs) : NXTorrentListing :=
  let sub := a.subatomic env
  let nxt64bits := calcNxt64bits a.nxtAddr
  let duration := int32 (3600 * atoi a.duration)
  let duration := if duration ≤ 0 then 24 * 3600 else duration
  let listingid := newListingid nxt64bits o.crc
  { seller64bits := nxt64bits
    listing64bits := calcNxt64bits listingid
    assetidbits := if sub.coinid = env.nxtCoinid then calcNxt64bits sub.coinaddrAssetid else 0#64
    price := env.satoshis a.pricestr
    amount := sub.amount
    coinid := sub.coinid
    duration := duration
    category := a.categories.map fun category => safecopy category 15
    tag := a.tags.map fun tag => safecopy tag 15
    coinaddr := if sub.coinid = env.nxtCoinid then [] else safecopy sub.coinaddrAssetid 64
    listingid := listingid
    title := safecopy a.title 127
    descr := if a.description ≠ [] then some a.description else none
    uri := if a.uri ≠ [] then some a.uri else none
    listedtime := o.time
    expiration := o.time + duration }

/-- `price` has no sign. -/
def ListArgs.creates (env : Env) (a : ListArgs) : Prop :=
  a.nxtAddr ≠ [] ∧ (env.satoshis a.pricestr ≠ 0 ∨ (a.subatomic env).valid)
deriving Decidable

def listFunc (env : Env) (o : Outside) (dp : NXTorrentInfo) (a : ListArgs) : Option Reply :=
  let cant (dp : NXTorrentInfo) (retstr : Option Text) : Reply :=
    { dp := dp, retstr := nxtorrentRetjson (-1) (some "cant create listing".toList) retstr }
  if a.creates env then
    let l := a.listing env o
    let (r, created, dp) := addListing dp l.listingid
    if created then
      let dp := storeListing dp r l
      let json := genListingJson env l none none
      let cmpval := cmpNXTorrentListings l (decodeNXTorrentJson env json)
      if cmpval < 0 then
        -- the listing stays
        some (cant dp (some (errorText ("error ".toList ++ decimal cmpval ++ " comparing listing json".toList))))
      else
        let reply (dp : NXTorrentInfo) : Reply :=
          { dp := dp
            call := some
              { func := nxtorrentList
                rating := 0
                destaddr := nxtorrentListingaddr
                listingbits := l.listing64bits
                jsontxt := cJSONPrint json }
            retstr := standardAMretstr l.status o.am }
        -- the test reads the text that has been freed
        if env.isValidNXTtxid (some o.freed) then
          o.am.map fun str => reply (dp.modifyLp r fun l => { l with listingAMbits := calcNxt64bits str })
        else some (reply dp)
    else some (cant dp (some (errorText "duplicate listing".toList)))
  else some (cant dp none)

def cancelFunc (env : Env) (o : Outside) (dp : NXTorrentInfo) (nxtAddr listingid : Text) : Reply :=
  if nxtAddr ≠ [] ∧ listingid ≠ [] then
    match getListingid dp listingid with
    | some r =>
      let l := dp.lp r
      if l.status = nxtorrentOffered ∨ l.status = nxtorrentActive then
        submit env o dp r
          { func := nxtorrentCancel
            rating := 0
            destaddr := if l.buyer64bits ≠ 0#64 then expandNxt64bits l.buyer64bits else nxtorrentCanceladdr
            listingbits := l.listing64bits
            jsontxt := "\x7b\"cancelled\":\"".toList ++ listingid ++ "\"\x7d".toList }
          nxtorrentCancelled
      else nolisting dp (some (errorReason "cant cancel" (nxtorrentStatusStr l.status)))
    | none => nolisting dp none
  else nolisting dp none

/-- What `bid` says, `none` when it is empty. -/
def bidSubatomic (env : Env) (bid : Text) : Option Subatomic :=
  if bid = [] then none
  else
    let bid := replaceBackslashquotes bid
    some (if bid.head? = some '\x7b' then isvalidNXTsubatomic env bid
      else { coinid := env.nxtCoinid, amount := env.satoshis bid })

/-- A text that closes only behind comments. -/
def bidjsonstr (env : Env) (o : Outside) (sub : Option Subatomic) (comments : Text) : Text :=
  match sub with
  | none => []
  | some sub =>
    let str := if sub.coinid = env.nxtCoinid then "assetid" else "coinaddr"
    "\x7b\"coin\":\"".toList ++ coinidStr sub.coinid ++ "\",\"".toList ++ str.toList ++ "\":\"".toList ++
      sub.coinaddrAssetid ++ "\",\"amount\":\"".toList ++ env.coins sub.amount ++ "\"".toList ++
      (if o.rawtx.1 ≠ [] then ",\"txbytes\":\"".toList ++ o.rawtx.1 ++ "\"".toList else []) ++
      (if o.rawtx.2 ≠ [] then ",\"sighash\":\"".toList ++ o.rawtx.2 ++ "\"".toList else []) ++
      if comments ≠ [] then ",\"comments\":\"".toList ++ comments ++ "\"\x7d".toList else []

/-- Is there a bid? -/
def bidValid (o : Outside) (sub : Option Subatomic) : Prop :=
  (sub.any Subatomic.valid) ∨ 0 < (sub.map Subatomic.amount).getD o.stack
deriving Decidable

def makeofferFunc (env : Env) (o : Outside) (dp : NXTorrentInfo) (nxtAddr listingid bid comments : Text) :
    Option Reply :=
  let lp := if listingid ≠ [] then getListingid dp listingid else none
  let sub := bidSubatomic env bid
  -- a bid reads the seller of the listing
  if sub.isSome ∧ lp = none then none
  else if nxtAddr ≠ [] ∧ listingid ≠ [] ∧ bidValid o sub then
    match lp with
    | some r =>
      let l := dp.lp r
      if l.status = nxtorrentActive then
        let dp := dp.modifyLp r fun l => { l with buyer64bits := calcNxt64bits nxtAddr }
        some (submit env o dp r
          { func := nxtorrentMakeoffer
            rating := 0
            destaddr := expandNxt64bits l.seller64bits
            listingbits := l.listing64bits
            jsontxt := bidjsonstr env o sub comments }
          nxtorrentOffered)
      else some (nolisting dp (some (errorReason "cant make offer" (nxtorrentStatusStr l.status))))
    | none => some (nolisting dp none)
  else some (nolisting dp none)

def acceptofferFunc (env : Env) (o : Outside) (dp : NXTorrentInfo) (nxtAddr listingid buyer instructions : Text) :
    Reply :=
  if nxtAddr ≠ [] ∧ listingid ≠ [] ∧ buyer ≠ [] then
    match getListingid dp listingid with
    | some r =>
      let dp := dp.modifyLp r fun l => { l with buyer64bits := calcNxt64bits buyer }
      submit env o dp r
        { func := nxtorrentAccept
          rating := 0
          destaddr := buyer
          listingbits := (dp.lp r).listing64bits
          jsontxt := "\x7b\"accept\":\"".toList ++ listingid ++ "\",\"buyer\":\"".toList ++ buyer ++
            "\",\"txbytes\":\"".toList ++ o.rawtx.1 ++ "\",\"sighash\":\"".toList ++ o.rawtx.2 ++
            "\",\"instructions\":\"".toList ++ instructions ++ "\"\x7d".toList }
        nxtorrentAccepted
    | none => nolisting dp none
  else nolisting dp none

def feedbackFunc (o : Outside) (dp : NXTorrentInfo) (nxtAddr listingid ratingstr aboutbuyer aboutseller : Text) :
    Reply :=
  let rating := atoi ratingstr
  let reply (r : Nat) (dp : NXTorrentInfo) (destbits : BitVec 64) (about : Text) : Reply :=
    { dp := dp
      call := some
        { func := nxtorrentFeedback
          rating := rating
          destaddr := expandNxt64bits destbits
          listingbits := (dp.lp r).listing64bits
          jsontxt := about }
      retstr := standardAMretstr (dp.lp r).status o.am }
  if nxtAddr ≠ [] ∧ listingid ≠ [] ∧ (aboutbuyer ≠ [] ∨ aboutseller ≠ []) then
    match getListingid dp listingid with
    | some r =>
      let l := dp.lp r
      if l.buyer64bits = calcNxt64bits nxtAddr then
        if aboutbuyer ≠ [] ∨ aboutseller = [] then
          { dp := dp, retstr := errorText "buyer can only feedback seller".toList }
        else
          let dp := dp.modifyLp r fun l => { l with feedbackSeller := { l.feedbackSeller with rating := rating } }
          reply r dp l.seller64bits aboutseller
      else if l.seller64bits = calcNxt64bits nxtAddr then
        if aboutbuyer = [] ∨ aboutseller ≠ [] then
          { dp := dp, retstr := errorText "seller can only feedback buyer".toList }
        else
          let dp := dp.modifyLp r fun l => { l with feedbackBuyer := { l.feedbackBuyer with rating := rating } }
          reply r dp l.buyer64bits aboutbuyer
      else { dp := dp, retstr := errorText "neither buyer nor seller".toList }
    | none => nolisting dp none
  else nolisting dp none

/-- The five commands that submit a message. -/
inductive Request where
  | list (a : ListArgs)
  | cancel (nxtAddr listingid : Text)
  | makeoffer (nxtAddr listingid bid comments : Text)
  | acceptoffer (nxtAddr listingid buyer instructions : Text)
  | feedback (nxtAddr listingid ratingstr aboutbuyer aboutseller : Text)

def runRequest (env : Env) (o : Outside) (dp : NXTorrentInfo) : Request → Option Reply
  | .list a => listFunc env o dp a
  | .cancel nxtAddr listingid => some (cancelFunc env o dp nxtAddr listingid)
  | .makeoffer nxtAddr listingid bid comments => makeofferFunc env o dp nxtAddr listingid bid comments
  | .acceptoffer nxtAddr listingid buyer instructions =>
    some (acceptofferFunc env o dp nxtAddr listingid buyer instructions)
  | .feedback nxtAddr listingid ratingstr aboutbuyer aboutseller =>
    some (feedbackFunc o dp nxtAddr listingid ratingstr aboutbuyer aboutseller)

/-! ## Runs -/

/-- `listings` lists the records in the order of their slots, and `status` computes ratings. -/
inductive Event where
  | message (m : AMmessage)
  | request (q : Request) (o : Outside)
  | listings (all : List Nat)
  | status (nxtAddr listingid : Text)
  | tick (timestamp : Int)

/-- What `passes_filter` does to a listing. -/
def expired (timestamp : Int) (l : NXTorrentListing) : NXTorrentListing :=
  if l.expiration < timestamp then { l with status := nxtorrentExpired } else l

/-- `listings_func` looks at the first ones. -/
def listingsFunc (dp : NXTorrentInfo) (all : List Nat) : NXTorrentInfo :=
  (all.take 101).foldl (fun dp r => dp.modifyLp r (expired dp.timestamp)) dp

/-- `recalc_NXTorrent_feedback` makes the feedbacks of the seller when there are none. -/
def statusFunc (dp : NXTorrentInfo) (nxtAddr listingid : Text) : NXTorrentInfo :=
  if nxtAddr ≠ [] ∧ listingid ≠ [] then
    match getListingid dp listingid with
    | some r =>
      let seller := expandNxt64bits (dp.lp r).seller64bits
      { dp with buyers := (dp.buyers.add 24 seller []).table, sellers := (dp.sellers.add 24 seller []).table }
    | none => dp
  else dp

def step (env : Env) (dp : NXTorrentInfo) : Event → Option NXTorrentInfo
  | .message m => some (updateNXTorrentState env dp m)
  | .request q o => (runRequest env o dp q).map Reply.dp
  | .listings all => some (listingsFunc dp all)
  | .status nxtAddr listingid => some (statusFunc dp nxtAddr listingid)
  | .tick timestamp => some { dp with timestamp := timestamp }

/-- A condition on the messages of a run. -/
def onMessage (P : NXTorrentInfo → AMmessage → Prop) (dp : NXTorrentInfo) : Event → Prop
  | .message m => P dp m
  | _ => True

instance {P : NXTorrentInfo → AMmessage → Prop} [∀ dp m, Decidable (P dp m)] (dp : NXTorrentInfo) :
    ∀ e, Decidable (onMessage P dp e)
  | .message m => inferInstanceAs (Decidable (P dp m))
  | .request _ _ | .listings _ | .status _ _ | .tick _ => .isTrue trivial

/-! ## What the commands keep -/

/-- The tables are the same, the records have their tags, and none becomes active or inactive. -/
structure Frame (dp dp' : NXTorrentInfo) : Prop where
  listings : dp'.listings = dp.listings
  entries : dp'.entries = dp.entries
  next : dp'.lps.next = dp.lps.next
  categories : dp'.categories = dp.categories
  tags : dp'.tags = dp.tags
  category : ∀ r, (dp'.lp r).category = (dp.lp r).category
  tag : ∀ r, (dp'.lp r).tag = (dp.lp r).tag
  status : ∀ r, ∀ status ∈ [nxtorrentInactive, nxtorrentActive], (dp'.lp r).status = status → (dp.lp r).status = status

section
variable {env : Env} {o : Outside} {dp dp' dp'' : NXTorrentInfo} {r : Nat}

theorem Frame.refl (dp : NXTorrentInfo) : Frame dp dp where
  listings := rfl
  entries := rfl
  next := rfl
  categories := rfl
  tags := rfl
  category _ := rfl
  tag _ := rfl
  status _ _ _ := id

theorem Frame.trans (h : Frame dp dp') (h' : Frame dp' dp'') : Frame dp dp'' where
  listings := h'.listings.trans h.listings
  entries := h'.entries.trans h.entries
  next := h'.next.trans h.next
  categories := h'.categories.trans h.categories
  tags := h'.tags.trans h.tags
  category r := (h'.category r).trans (h.category r)
  tag r := (h'.tag r).trans (h.tag r)
  status r status hstatus := h.status r status hstatus ∘ h'.status r status hstatus

theorem Frame.active (h : Frame dp dp') (hactive : (dp'.lp r).status = nxtorrentActive) :
    (dp.lp r).status = nxtorrentActive := h.status r _ (by simp) hactive

theorem Frame.inactive (h : Frame dp dp') (hinactive : (dp'.lp r).status = nxtorrentInactive) :
    (dp.lp r).status = nxtorrentInactive := h.status r _ (by simp) hinactive

theorem status_of_write {status : Int} {P : Prop} (closed : Int)
    (hclosed : closed ∉ [nxtorrentInactive, nxtorrentActive]) (hstatus : status ∈ [nxtorrentInactive, nxtorrentActive])
    (h : closed = status) : P :=
  absurd (h ▸ hstatus) hclosed

theorem frame_modifyLp (dp : NXTorrentInfo) (r : Nat) {f : NXTorrentListing → NXTorrentListing}
    (hcategory : ∀ l, (f l).category = l.category) (htag : ∀ l, (f l).tag = l.tag)
    (hstatus : ∀ l, ∀ status ∈ [nxtorrentInactive, nxtorrentActive], (f l).status = status → l.status = status) :
    Frame dp (dp.modifyLp r f) where
  listings := rfl
  entries := rfl
  next := rfl
  categories := rfl
  tags := rfl
  category := Arena.modify_proj NXTorrentListing.category hcategory
  tag := Arena.modify_proj NXTorrentListing.tag htag
  status r' status hmem h := by
    rw [lp_modifyLp] at h
    split at h
    · next heq => exact heq ▸ hstatus _ status hmem h
    · exact h

theorem frame_replyFeedbacks (dp : NXTorrentInfo) (m : AMmessage) (l : NXTorrentListing) :
    Frame dp (replyFeedbacks dp m l) := by
  obtain ⟨buyers, sellers, heq⟩ := replyFeedbacks_eq dp m l
  rw [heq]
  exact { Frame.refl dp with }

theorem Frame.wellformed (h : Frame dp dp') (hwf : Wellformed dp) : Wellformed dp' := by
  obtain ⟨hlistings, hentries, hnext, hcategories, htags, -, -, -⟩ := h
  refine ⟨?_, ?_, ?_, ?_, ?_, ?_⟩
  · rw [hentries, hnext]
    exact hwf.entry
  · rw [hlistings, hentries]
    exact hwf.listed
  · rw [hcategories, hentries]
    exact hwf.category
  · rw [htags, hentries]
    exact hwf.tag
  · rw [hcategories]
    exact hwf.nodupCategories
  · rw [htags]
    exact hwf.nodupTags

/-! One statement covers the four commands that do not make a listing. -/

/-- The record that a command submits a message for, when it gets so far. -/
def Request.target (env : Env) (o : Outside) (dp : NXTorrentInfo) : Request → Option Nat
  | .list _ => none
  | .cancel nxtAddr listingid =>
    if nxtAddr ≠ [] ∧ listingid ≠ [] then
      (getListingid dp listingid).filter fun r =>
        (dp.lp r).status = nxtorrentOffered ∨ (dp.lp r).status = nxtorrentActive
    else none
  | .makeoffer nxtAddr listingid bid _ =>
    if nxtAddr ≠ [] ∧ listingid ≠ [] ∧ bidValid o (bidSubatomic env bid) then
      (getListingid dp listingid).filter fun r => (dp.lp r).status = nxtorrentActive
    else none
  | .acceptoffer nxtAddr listingid buyer _ =>
    if nxtAddr ≠ [] ∧ listingid ≠ [] ∧ buyer ≠ [] then getListingid dp listingid else none
  | .feedback nxtAddr listingid _ aboutbuyer aboutseller =>
    if nxtAddr ≠ [] ∧ listingid ≠ [] then
      (getListingid dp listingid).filter fun r =>
        if (dp.lp r).buyer64bits = calcNxt64bits nxtAddr then aboutbuyer = [] ∧ aboutseller ≠ []
        else (dp.lp r).seller64bits = calcNxt64bits nxtAddr ∧ aboutbuyer ≠ [] ∧ aboutseller = []
    else none

/-- What it writes there; the new status waits for the answer. -/
def Request.write (valid : Bool) (l : NXTorrentListing) : Request → NXTorrentListing
  | .list _ => l
  | .cancel _ _ => { l with status := if valid then nxtorrentCancelled else l.status }
  | .makeoffer nxtAddr _ _ _ =>
    { l with
      buyer64bits := calcNxt64bits nxtAddr
      status := if valid then nxtorrentOffered else l.status }
  | .acceptoffer _ _ buyer _ =>
    { l with
      buyer64bits := calcNxt64bits buyer
      status := if valid then nxtorrentAccepted else l.status }
  | .feedback nxtAddr _ ratingstr _ _ =>
    if l.buyer64bits = calcNxt64bits nxtAddr then
      { l with feedbackSeller := { l.feedbackSeller with rating := atoi ratingstr } }
    else { l with feedbackBuyer := { l.feedbackBuyer with rating := atoi ratingstr } }

/-- What is left of a command: the record and the call, or neither. -/
def Request.Done (env : Env) (o : Outside) (dp : NXTorrentInfo) (q : Request) (reply : Reply) : Prop :=
  match q.target env o dp with
  | none => reply.call = none ∧ reply.dp = dp
  | some r => reply.call.isSome ∧ reply.dp = dp.modifyLp r fun l => q.write (env.isValidNXTtxid o.am) l

theorem modifyLp_modifyLp (f g : NXTorrentListing → NXTorrentListing) :
    (dp.modifyLp r f).modifyLp r g = dp.modifyLp r fun l => g (f l) :=
  congrArg (fun lps => { dp with lps := lps }) Arena.modify_modify

theorem modifyLp_congr {f g : NXTorrentListing → NXTorrentListing} (h : f (dp.lp r) = g (dp.lp r)) :
    dp.modifyLp r f = dp.modifyLp r g :=
  congrArg (fun l => { dp with lps := { dp.lps with cell := Function.update dp.lps.cell r l } }) h

theorem modifyLp_id : dp.modifyLp r (fun l => l) = dp := by
  unfold NXTorrentInfo.modifyLp Arena.modify
  rw [Function.update_eq_self]

theorem submit_dp (call : AMcall) (status : Int) : (submit env o dp r call status).dp =
    dp.modifyLp r fun l => { l with status := if env.isValidNXTtxid o.am then status else l.status } := by
  unfold submit
  cases env.isValidNXTtxid o.am with
  | true => rfl
  | false => exact modifyLp_id.symm

theorem cancelFunc_done (nxtAddr listingid : Text) :
    (Request.cancel nxtAddr listingid).Done env o dp (cancelFunc env o dp nxtAddr listingid) := by
  unfold Request.Done Request.target cancelFunc
  by_cases hargs : nxtAddr ≠ [] ∧ listingid ≠ []
  · simp only [if_pos hargs]
    cases getListingid dp listingid with
    | none => exact ⟨rfl, rfl⟩
    | some r =>
      by_cases hstatus : (dp.lp r).status = nxtorrentOffered ∨ (dp.lp r).status = nxtorrentActive
      · simp only [Option.filter_some, hstatus, decide_true, if_true]
        exact ⟨rfl, submit_dp _ _⟩
      · simp only [Option.filter_some, hstatus, decide_false, Bool.false_eq_true, if_false]
        exact ⟨rfl, rfl⟩
  · simp only [if_neg hargs]
    exact ⟨rfl, rfl⟩

theorem makeofferFunc_done {nxtAddr listingid bid comments : Text} {reply : Reply}
    (h : makeofferFunc env o dp nxtAddr listingid bid comments = some reply) :
    (Request.makeoffer nxtAddr listingid bid comments).Done env o dp reply := by
  unfold makeofferFunc at h
  dsimp only at h
  by_cases hnull : (bidSubatomic env bid).isSome ∧ (if listingid ≠ [] then getListingid dp listingid else none) = none
  · rw [if_pos hnull] at h
    cases h
  · rw [if_neg hnull] at h
    unfold Request.Done Request.target
    by_cases hargs : nxtAddr ≠ [] ∧ listingid ≠ [] ∧ bidValid o (bidSubatomic env bid)
    · rw [if_pos hargs, if_pos hargs.2.1] at h
      simp only [if_pos hargs]
      cases hlp : getListingid dp listingid with
      | none =>
        rw [hlp] at h
        obtain rfl := Option.some.inj h
        exact ⟨rfl, rfl⟩
      | some r =>
        simp only [hlp] at h
        by_cases hstatus : (dp.lp r).status = nxtorrentActive
        · rw [if_pos hstatus] at h
          obtain rfl := Option.some.inj h
          simp only [Option.filter_some, hstatus, decide_true, if_true]
          exact ⟨rfl, (submit_dp _ _).trans (modifyLp_modifyLp _ _)⟩
        · rw [if_neg hstatus] at h
          obtain rfl := Option.some.inj h
          simp only [Option.filter_some, hstatus, decide_false, Bool.false_eq_true, if_false]
          exact ⟨rfl, rfl⟩
    · rw [if_neg hargs] at h
      obtain rfl := Option.some.inj h
      simp only [if_neg hargs]
      exact ⟨rfl, rfl⟩

theorem acceptofferFunc_done (nxtAddr listingid buyer instructions : Text) :
    (Request.acceptoffer nxtAddr listingid buyer instructions).Done env o dp
      (acceptofferFunc env o dp nxtAddr listingid buyer instructions) := by
  unfold Request.Done Request.target acceptofferFunc
  by_cases hargs : nxtAddr ≠ [] ∧ listingid ≠ [] ∧ buyer ≠ []
  · simp only [if_pos hargs]
    cases getListingid dp listingid with
    | none => exact ⟨rfl, rfl⟩
    | some r => exact ⟨rfl, (submit_dp _ _).trans (modifyLp_modifyLp _ _)⟩
  · simp only [if_neg hargs]
    exact ⟨rfl, rfl⟩

theorem feedbackFunc_done (nxtAddr listingid ratingstr aboutbuyer aboutseller : Text) :
    (Request.feedback nxtAddr listingid ratingstr aboutbuyer aboutseller).Done env o dp
      (feedbackFunc o dp nxtAddr listingid ratingstr aboutbuyer aboutseller) := by
  unfold Request.Done Request.target feedbackFunc Request.write
  by_cases hargs : nxtAddr ≠ [] ∧ listingid ≠ []
  · simp only [hargs.1, hargs.2, ne_eq, not_false_eq_true, true_and, if_true]
    cases getListingid dp listingid with
    | none => simp [nolisting]
    | some r =>
      simp only [Option.filter_some]
      by_cases hbuyer : (dp.lp r).buyer64bits = calcNxt64bits nxtAddr
      · by_cases habout : aboutbuyer = [] ∧ aboutseller ≠ []
        · simp only [habout.1, habout.2, hbuyer, not_true, not_false_eq_true, or_true, if_true, and_self,
            decide_true, false_or, if_false]
          exact ⟨rfl, modifyLp_congr (if_pos hbuyer).symm⟩
        · have herror : ¬aboutbuyer = [] ∨ aboutseller = [] := by tauto
          simp only [hbuyer, habout, herror, if_true, decide_false, Bool.false_eq_true, if_false]
          split <;> exact ⟨rfl, rfl⟩
      · by_cases habout : (dp.lp r).seller64bits = calcNxt64bits nxtAddr ∧ aboutbuyer ≠ [] ∧ aboutseller = []
        · simp only [habout.1, habout.2.1, habout.2.2, hbuyer, not_true, not_false_eq_true, true_or, if_true,
            and_self, decide_true, false_or, if_false]
          exact ⟨rfl, modifyLp_congr (if_neg hbuyer).symm⟩
        · simp only [hbuyer, habout, decide_false, Bool.false_eq_true, if_false]
          split
          · split
            · rw [if_pos (by tauto)]
              exact ⟨rfl, rfl⟩
            · exact ⟨rfl, rfl⟩
          · exact ⟨rfl, rfl⟩
  · simp only [if_neg hargs]
    rw [if_neg fun h => hargs ⟨h.1, h.2.1⟩]
    exact ⟨rfl, rfl⟩

/-- **The commands other than `list`**: a message is submitted for the target, which is written to before
the answer is there, and without a target nothing happens. -/
theorem runRequest_done {q : Request} {reply : Reply} (hq : ∀ a, q ≠ .list a) (h : runRequest env o dp q = some reply) :
    q.Done env o dp reply := by
  cases q with
  | list a => exact absurd rfl (hq a)
  | cancel nxtAddr listingid =>
    obtain rfl := Option.some.inj h
    exact cancelFunc_done nxtAddr listingid
  | makeoffer nxtAddr listingid bid comments => exact makeofferFunc_done h
  | acceptoffer nxtAddr listingid buyer instructions =>
    obtain rfl := Option.some.inj h
    exact acceptofferFunc_done nxtAddr listingid buyer instructions
  | feedback nxtAddr listingid ratingstr aboutbuyer aboutseller =>
    obtain rfl := Option.some.inj h
    exact feedbackFunc_done nxtAddr listingid ratingstr aboutbuyer aboutseller

theorem Request.Done.lp {q : Request} {reply : Reply} (h : q.Done env o dp reply) (r : Nat) : reply.dp.lp r =
    if q.target env o dp = some r then q.write (env.isValidNXTtxid o.am) (dp.lp r) else dp.lp r := by
  unfold Request.Done at h
  split at h
  · next hnone => rw [h.2, hnone, if_neg (by simp)]
  · next r' htarget =>
    rw [h.2, htarget, lp_modifyLp]
    by_cases hsame : r = r'
    · rw [if_pos hsame, if_pos (congrArg some hsame.symm), hsame]
    · rw [if_neg hsame, if_neg fun heq => hsame (Option.some.inj heq).symm]

theorem Request.Done.frame {q : Request} {reply : Reply} (h : q.Done env o dp reply) : Frame dp reply.dp := by
  unfold Request.Done at h
  split at h
  · rw [h.2]
    exact Frame.refl dp
  · rw [h.2]
    apply frame_modifyLp
    · intro l
      cases q with
      | feedback => unfold Request.write; dsimp only; split <;> rfl
      | _ => rfl
    · intro l
      cases q with
      | feedback => unfold Request.write; dsimp only; split <;> rfl
      | _ => rfl
    · intro l status hmem hstatus
      cases q with
      | feedback =>
        unfold Request.write at hstatus
        dsimp only at hstatus
        split at hstatus <;> exact hstatus
      | list => exact hstatus
      | cancel | makeoffer | acceptoffer =>
        unfold Request.write at hstatus
        dsimp only at hstatus
        split at hstatus
        · exact status_of_write _ (by decide) hmem hstatus
        · exact hstatus

/-- A new listing is stored, at most with the bits of the answer. -/
theorem listFunc_dp {a : ListArgs} {reply : Reply} (h : listFunc env o dp a = some reply) (hcreates : a.creates env)
    (hnone : dp.listings (storeKey 64 (a.listing env o).listingid) = none) :
    ∃ bits : NXTorrentListing → BitVec 64, reply.dp = (newListing dp (a.listing env o)).modifyLp dp.lps.next
      fun l => { l with listingAMbits := bits l } := by
  have hsame : newListing dp (a.listing env o) = (newListing dp (a.listing env o)).modifyLp dp.lps.next
      fun l => { l with listingAMbits := l.listingAMbits } := modifyLp_id.symm
  have hnext := congrArg Prod.fst (addListing_of_none hnone)
  unfold listFunc at h
  dsimp only at h
  rw [if_pos hcreates, if_pos (by rw [addListing_of_none hnone]), hnext] at h
  have hnew : storeListing (addListing dp (a.listing env o).listingid).2.2 dp.lps.next (a.listing env o) =
      newListing dp (a.listing env o) := by
    unfold newListing
    rw [hnext]
  rw [hnew] at h
  split at h
  · obtain rfl := Option.some.inj h
    exact ⟨_, hsame⟩
  · split at h
    · obtain ⟨str, -, rfl⟩ := Option.map_eq_some_iff.mp h
      exact ⟨fun _ => calcNxt64bits str, rfl⟩
    · obtain rfl := Option.some.inj h
      exact ⟨_, hsame⟩

/-- `list_func` makes an inactive listing or none. -/
theorem listFunc_cases {a : ListArgs} {reply : Reply} (h : listFunc env o dp a = some reply) :
    reply.dp = dp ∧ reply.call = none ∧
        (a.creates env → dp.listings (storeKey 64 (a.listing env o).listingid) ≠ none) ∨
      a.creates env ∧ dp.listings (storeKey 64 (a.listing env o).listingid) = none ∧
        Frame (newListing dp (a.listing env o)) reply.dp := by
  by_cases hcreates : a.creates env
  · rcases addListing_cases dp (a.listing env o).listingid with ⟨r, hr, heq⟩ | ⟨hnone, -⟩
    · unfold listFunc at h
      dsimp only at h
      rw [if_pos hcreates, heq] at h
      obtain rfl := Option.some.inj h
      exact .inl ⟨rfl, rfl, fun _ hnone => by simp [hr] at hnone⟩
    · obtain ⟨bits, hdp⟩ := listFunc_dp h hcreates hnone
      rw [hdp]
      exact .inr ⟨hcreates, hnone, frame_modifyLp _ _ (fun _ => rfl) (fun _ => rfl) fun _ _ _ => id⟩
  · unfold listFunc at h
    rw [if_neg hcreates] at h
    obtain rfl := Option.some.inj h
    exact .inl ⟨rfl, rfl, fun hcreates' => absurd hcreates' hcreates⟩

/-- **What a command does to the tables**: it makes an inactive listing, or leaves them. -/
theorem frame_runRequest {q : Request} {reply : Reply} (h : runRequest env o dp q = some reply) :
    Frame dp reply.dp ∨ ∃ a, q = .list a ∧ dp.listings (storeKey 64 (a.listing env o).listingid) = none ∧
      Frame (newListing dp (a.listing env o)) reply.dp := by
  cases q with
  | list a =>
    rcases listFunc_cases h with ⟨hdp, -⟩ | ⟨-, hnone, hframe⟩
    · left
      rw [hdp]
      exact Frame.refl dp
    · exact .inr ⟨a, rfl, hnone, hframe⟩
  | cancel => exact .inl (runRequest_done (by simp) h).frame
  | makeoffer => exact .inl (runRequest_done (by simp) h).frame
  | acceptoffer => exact .inl (runRequest_done (by simp) h).frame
  | feedback => exact .inl (runRequest_done (by simp) h).frame

theorem frame_listingsFunc (dp : NXTorrentInfo) (all : List Nat) : Frame dp (listingsFunc dp all) := by
  unfold listingsFunc
  generalize all.take 101 = first
  induction first generalizing dp with
  | nil => exact Frame.refl dp
  | cons r first ih =>
    have hexpired (l : NXTorrentListing) : (expired dp.timestamp l).category = l.category ∧
        (expired dp.timestamp l).tag = l.tag ∧ ∀ status ∈ [nxtorrentInactive, nxtorrentActive],
          (expired dp.timestamp l).status = status → l.status = status := by
      unfold expired
      split
      · exact ⟨rfl, rfl, fun _ => status_of_write nxtorrentExpired (by decide)⟩
      · exact ⟨rfl, rfl, fun _ _ => id⟩
    have hframe := frame_modifyLp dp r (fun l => (hexpired l).1) (fun l => (hexpired l).2.1) fun l => (hexpired l).2.2
    exact hframe.trans (ih _)

theorem frame_statusFunc (dp : NXTorrentInfo) (nxtAddr listingid : Text) :
    Frame dp (statusFunc dp nxtAddr listingid) := by
  unfold statusFunc
  split
  · split
    · exact { Frame.refl dp with }
    · exact Frame.refl dp
  · exact Frame.refl dp

/-- **Every step keeps the tables wellformed.** -/
theorem Wellformed.step {e : Event} (hstep : step env dp e = some dp') (h : Wellformed dp) : Wellformed dp' := by
  cases e with
  | message m =>
    obtain rfl := Option.some.inj hstep
    exact h.update env m
  | request q o =>
    obtain ⟨reply, hreply, rfl⟩ := Option.map_eq_some_iff.mp hstep
    rcases frame_runRequest hreply with hframe | ⟨a, -, -, hframe⟩
    · exact hframe.wellformed h
    · exact hframe.wellformed ((h.addListing _).storeListing _ _)
  | listings all =>
    obtain rfl := Option.some.inj hstep
    exact (frame_listingsFunc dp all).wellformed h
  | status nxtAddr listingid =>
    obtain rfl := Option.some.inj hstep
    exact (frame_statusFunc dp nxtAddr listingid).wellformed h
  | tick timestamp =>
    obtain rfl := Option.some.inj hstep
    exact ⟨h.entry, h.listed, h.category, h.tag, h.nodupCategories, h.nodupTags⟩

theorem along_onMessage_congr {P Q : NXTorrentInfo → AMmessage → Prop}
    (h : ∀ dp m, Wellformed dp → (P dp m ↔ Q dp m)) (es : List Event) :
    Run.Along (Torrent.step env) (onMessage P) {} es ↔ Run.Along (Torrent.step env) (onMessage Q) {} es := by
  apply Run.along_congr Wellformed _ _ wellformed_empty
  · intro dp e hwf
    cases e with
    | message m => exact h dp m hwf
    | _ => exact Iff.rfl
  · intro dp e dp' hwf _ hstep
    exact hwf.step hstep

end

end NXTServices.Torrent
