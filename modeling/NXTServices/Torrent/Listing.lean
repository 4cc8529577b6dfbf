import NXTServices.Gateway.State
import NXTServices.Printing
import NXTServices.Torrent.State

/-!
# The JSON of a listing: `NXTorrent.h`

* `Env` : `NXT_COINID` and the arithmetic on `double`, which are parameters;
* `objectOf` : an object made by `cJSON_AddItemToObject`, and `getObjectItem_objectOf` to read it;
* `genListingJson`, `decodeNXTorrentJson` : a listing to JSON and back;
* `isvalidNXTsubatomic` : the coin part of a listing or of a bid;
* `cmpNXTorrentListings` : the comparison `list_func` makes between them.
-/

namespace NXTServices

/-! ## Objects -/

namespace Json

/-- Items are added in turn; a null pointer adds nothing. -/
def objectOf (fields : List (String × Option Json)) : Json :=
  object (fields.filterMap fun (name, item) => item.map fun item => (name.toList, item))

/-- `extract_cJSON_str`: the answer is `-1` when the text does not fit, which leaves the buffer full. -/
def extractCJSONStr (max : Nat) (json : Json) (field : Text) : Int × Text :=
  match getObjectItem json field with
  | none => (0, [])
  | some obj =>
    let str := copyCJSON (some obj)
    (if str.length < max then str.length else -1, str.take max)

/-- Names that differ are told apart. -/
theorem getObjectItem_objectOf {fields : List (String × Option Json)} {name : String} {item : Option Json}
    (hdistinct : (fields.map fun f => f.1.toList.map tolower).Nodup) (hmem : (name, item) ∈ fields) :
    getObjectItem (objectOf fields) name.toList = item := by
  have hfind : ∀ {fields : List (String × Option Json)},
      (∀ f ∈ fields, f.1.toList.map tolower ≠ name.toList.map tolower) →
      getObjectItem (objectOf fields) name.toList = none := by
    intro fields hne
    show ((fields.filterMap _).find? _).map Prod.snd = none
    rw [Option.map_eq_none_iff, List.find?_eq_none]
    intro m hm hname
    obtain ⟨f, hf, hsome⟩ := List.mem_filterMap.mp hm
    obtain ⟨v, -, rfl⟩ := Option.map_eq_some_iff.mp hsome
    exact hne f hf (by simpa using hname)
  induction fields with
  | nil => cases hmem
  | cons f fields ih =>
    obtain ⟨hnot, hrest⟩ := List.nodup_cons.mp hdistinct
    obtain ⟨fname, fitem⟩ := f
    rcases List.mem_cons.mp hmem with hhead | hmem
    · obtain ⟨rfl, rfl⟩ := Prod.mk.inj hhead
      cases item with
      | some v => simp [objectOf, getObjectItem]
      | none =>
        show getObjectItem (objectOf fields) name.toList = none
        apply hfind
        intro f hf hname
        exact hnot (List.mem_map.mpr ⟨f, hf, hname⟩)
    · have hne : fname.toList.map tolower ≠ name.toList.map tolower := by
        intro hname
        exact hnot (List.mem_map.mpr ⟨_, hmem, hname.symm⟩)
      rw [← ih hrest hmem]
      cases fitem with
      | none => rfl
      | some v => simp [objectOf, getObjectItem, hne]

end Json

namespace Torrent
open Json hiding null true false
open Gateway (coinidStr convCoinstr)

/-- What comes from outside: `satoshis` is `atof(text) * SATOSHIDEN` and `seconds` is `3600. * atof(text)`,
both as integers, `coins` and `hours` are the `"%.8f"` of an amount and of a duration, `number` is how a
number prints, and `render` how one that is parsed does. `isValidNXTtxid` answers for a null pointer too. -/
structure Env where
  nxtCoinid : Int
  isValidNXTtxid : Option Text → Bool
  satoshis : Text → Int
  seconds : Text → Int
  coins : Int → Text
  hours : Int → Text
  number : Int → Text
  render : Text → Text

/-- The `"%d"` of a number. -/
def decimal (n : Int) : Text := if n < 0 then '-' :: Nat.toDigits 10 n.natAbs else Nat.toDigits 10 n.natAbs

/-- An instance for amounts of whole coins and for whole hours; a transaction id is a number. -/
def wholeEnv : Env where
  nxtCoinid := 0
  isValidNXTtxid txid := txid.any fun txid => txid ≠ [] ∧ txid.all isDigit
  satoshis str := atol str * 100000000
  seconds str := atol str * 3600
  coins amount := decimal (amount / 100000000) ++ ".00000000".toList
  hours duration := decimal (duration / 3600) ++ ".00000000".toList
  number := decimal
  render := id

/-! ## To JSON -/

/-- `_gen_NXTorrent_feedback_json`. -/
def genFeedbackJson (env : Env) (ptr : Feedback) : Option Json :=
  if ptr.rating ≠ 0 ∨ ptr.about ≠ none then
    some (objectOf [("rating", some (number (env.number ptr.rating))), ("about", ptr.about.map string)])
  else none

/-- Each of the two is added when the other one is there. -/
def genNXTorrentFeedbackJson (env : Env) (feedbackSeller feedbackBuyer : Feedback) : Option Json :=
  let buyer := genFeedbackJson env feedbackBuyer
  let seller := genFeedbackJson env feedbackSeller
  if buyer.isSome ∨ seller.isSome then
    some (array ((if buyer.isSome then seller.toList else []) ++ if seller.isSome then buyer.toList else []))
  else none

def genNXTsubatomicJson (env : Env) (coinid : Int) (assetidbits : BitVec 64) (amount : Int) (coinaddr : Text) :
    Option Json :=
  if 0 < amount ∧ (coinid = env.nxtCoinid ∨ coinaddr ≠ []) then
    let asset := coinid = env.nxtCoinid ∧ assetidbits ≠ 0#64
    some (objectOf
      [ ("coin", some (string (coinidStr coinid))),
        ("assetid", if asset then some (string (expandNxt64bits assetidbits)) else none),
        ("coinaddr", if ¬ asset ∧ coinid ≠ env.nxtCoinid ∧ coinaddr ≠ [] then some (string coinaddr) else none),
        ("amount", some (string (env.coins amount))) ])
  else none

/-- The fields of `gen_listing_json`. `ratings` are the two texts for `AMflag` zero, `contents` is what
`URIcontents` fetches. -/
def listingFields (env : Env) (lp : NXTorrentListing) (ratings : Option (Text × Text)) (contents : Option Text) :
    List (String × Option Json) :=
  let buyer := expandNxt64bits lp.buyer64bits
  let category (i : Nat) : Option Json := some (string (lp.category.getD i []))
  let tag (i : Nat) : Option Json := some (string (lp.tag.getD i []))
  [ ("seller", some (string (expandNxt64bits lp.seller64bits))),
    ("buyer_rating", ratings.map fun r => string r.1),
    ("seller_rating", ratings.map fun r => string r.2),
    ("listingid", some (string lp.listingid)),
    ("title", some (string lp.title)),
    ("price", if lp.price ≠ 0 then some (string (env.coins lp.price)) else none),
    ("NXTsubatomic", genNXTsubatomicJson env lp.coinid lp.assetidbits lp.amount lp.coinaddr),
    ("status", some (string (nxtorrentStatusStr lp.status))),
    ("listedtime", some (number (env.number lp.listedtime))),
    ("expiration", some (number (env.number lp.expiration))),
    ("duration", some (string (env.hours lp.duration))),
    ("buyer", if buyer ≠ [] then some (string buyer) else none),
    ("category1", category 0), ("category2", category 1), ("category3", category 2),
    ("tag1", tag 0), ("tag2", tag 1), ("tag3", tag 2),
    ("URI", lp.uri.map string),
    ("URIcontents", if lp.uri ≠ none then contents.map string else none),
    ("description", lp.descr.map string),
    ("listingAMtxid", if lp.listingAMbits ≠ 0#64 then some (string (expandNxt64bits lp.listingAMbits)) else none),
    ("feedback", genNXTorrentFeedbackJson env lp.feedbackSeller lp.feedbackBuyer) ]

def genListingJson (env : Env) (lp : NXTorrentListing) (ratings : Option (Text × Text)) (contents : Option Text) :
    Json :=
  objectOf (listingFields env lp ratings contents)

/-! ## From JSON -/

/-- What `isvalid_NXTsubatomic` answers and writes. -/
structure Subatomic where
  valid : Bool := false
  coinid : Int := -1
  amount : Int := 0
  coinaddrAssetid : Text := []
  txbytes : Text := []
  sighash : Text := []
deriving DecidableEq

def isvalidNXTsubatomic (env : Env) (str : Text) : Subatomic :=
  match cJSONParse env.render str with
  | none => {}
  | some json =>
    let (coinlen, coin) := extractCJSONStr 64 json "coin".toList
    let (amountlen, amountstr) := extractCJSONStr 64 json "amount".toList
    if 0 < coinlen ∧ 0 < amountlen then
      let amount := env.satoshis amountstr
      if 0 < amount then
        let coinid := ((convCoinstr coin).map Int.ofNat).getD (-1)
        if coinid = env.nxtCoinid then
          { valid := true
            coinid := coinid
            amount := amount
            coinaddrAssetid := (extractCJSONStr 64 json "assetid".toList).2
            txbytes := (extractCJSONStr 64 json "txbytes".toList).2
            sighash := (extractCJSONStr 64 json "sighash".toList).2 }
        else
          let coinaddr := (extractCJSONStr 64 json "coinaddr".toList).2
          { valid := 6 < coinaddr.length, coinid := coinid, amount := amount, coinaddrAssetid := coinaddr }
      else { amount := amount }
    else {}

/-- The coin part of a listing; a listing without one has the coin `0`. -/
def listingSubatomic (env : Env) (json : Json) : Subatomic :=
  match getObjectItem json "NXTsubatomic".toList with
  | none => { coinid := 0 }
  | some obj => isvalidNXTsubatomic env (cJSONPrint obj)

/-- A listing is always read: the answer is `-1` for a null pointer only. -/
def decodeNXTorrentJson (env : Env) (json : Json) : NXTorrentListing :=
  let text (field : String) : Text := copyCJSON (getObjectItem json field.toList)
  let extract (max : Nat) (field : String) : Text := (extractCJSONStr max json field.toList).2
  let seller := text "seller"
  let sub := listingSubatomic env json
  let asset := sub.valid ∧ sub.coinid = env.nxtCoinid
  { seller64bits := if seller ≠ [] then calcNxt64bits seller else 0#64
    buyer64bits := if text "buyer" ≠ [] then calcNxt64bits (text "buyer") else 0#64
    listing64bits := if text "listingid" ≠ [] then calcNxt64bits (text "listingid") else 0#64
    assetidbits := if asset then calcNxt64bits sub.coinaddrAssetid else 0#64
    price := if text "price" ≠ [] then env.satoshis (text "price") else 0
    amount := sub.amount
    coinid := sub.coinid
    duration := env.seconds (text "duration")
    category := [extract 16 "category1", extract 16 "category2", extract 16 "category3"]
    tag := [extract 16 "tag1", extract 16 "tag2", extract 16 "tag3"]
    coinaddr := if asset then [] else sub.coinaddrAssetid
    listingid := text "listingid"
    title := extract 128 "title"
    descr := if text "description" ≠ [] then some (text "description") else none
    uri := if text "URI" ≠ [] then some (text "URI") else none
    status := convStatusStr (text "status")
    listedtime := getCJSONInt json "listedtime".toList
    expiration := getCJSONInt json "expiration".toList
    -- the test is on the seller
    listingAMbits := if seller ≠ [] then calcNxt64bits (text "listingAMtxid") else 0#64 }

/-! ## The comparison -/

/-- Two texts, copied to buffers of 4096 zeros. -/
def sameText (ref text : Option Text) : Bool := ((ref.getD []).take 4096) == ((text.getD []).take 4096)

/-- The number of the first field that differs, or `0`. -/
def cmpNXTorrentListings (ref lp : NXTorrentListing) : Int :=
  if ref.seller64bits ≠ lp.seller64bits then -1
  else if ref.buyer64bits ≠ lp.buyer64bits then -2
  else if ref.listing64bits ≠ lp.listing64bits then -3
  else if ref.listingAMbits ≠ lp.listingAMbits then -4
  else if ref.price ≠ lp.price then -6
  else if ref.status ≠ lp.status then -7
  else if ¬ sameText ref.descr lp.descr then -8
  else if ¬ sameText ref.uri lp.uri then -9
  else if ref.listingid ≠ lp.listingid then -10
  else if ref.assetidbits ≠ lp.assetidbits then -11
  else if ref.amount ≠ lp.amount then -12
  else if ref.coinid ≠ lp.coinid then -13
  else if ref.duration ≠ lp.duration then -14
  else if ref.coinaddr ≠ lp.coinaddr then -15
  else if ref.title ≠ lp.title then -16
  else
    match (List.range 6).find? fun k =>
      if k % 2 = 0 then ref.category.getD (k / 2) [] ≠ lp.category.getD (k / 2) []
      else ref.tag.getD (k / 2) [] ≠ lp.tag.getD (k / 2) [] with
    | some k => -17 - k
    | none => 0

end Torrent
end NXTServices
