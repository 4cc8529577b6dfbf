import NXTServices.Reading
import NXTServices.Torrent.Listing

/-!
# A listing through its JSON

* `Recovers` : the texts, the ids and the status of a listing are those of another;
* `Lossless` : the listings that come back from their JSON, `Sized` being what the buffers promise;
* `coinaddr_decoded_iff`, `status_decoded_iff` and the other lemmas on one field each;
* `recovers_iff` : `decodeNXTorrentJson` undoes `genListingJson` exactly on these.
-/

namespace NXTServices.Torrent
open Json hiding null true false
open Gateway (coinidStr convCoinstr)

structure Recovers (lp l : NXTorrentListing) : Prop where
  title : l.title = lp.title
  uri : l.uri = lp.uri
  descr : l.descr = lp.descr
  listingid : l.listingid = lp.listingid
  coinaddr : l.coinaddr = lp.coinaddr
  category : l.category = lp.category
  tag : l.tag = lp.tag
  seller64bits : l.seller64bits = lp.seller64bits
  buyer64bits : l.buyer64bits = lp.buyer64bits
  listingAMbits : l.listingAMbits = lp.listingAMbits
  status : l.status = lp.status

/-- Texts that fit their buffers, and a status there is. -/
structure Sized (lp : NXTorrentListing) : Prop where
  title : lp.title.length < 128
  coinaddr : lp.coinaddr.length < 64
  category : lp.category.length = 3 ∧ ∀ str ∈ lp.category, str.length < 16
  tag : lp.tag.length = 3 ∧ ∀ str ∈ lp.tag, str.length < 16
  uri : lp.uri ≠ some []
  descr : lp.descr ≠ some []
  status : 0 ≤ lp.status ∧ lp.status ≤ nxtorrentExpired

/-- The amount is written, and read as an amount of another coin than `NXT`. -/
def CoinRead (env : Env) (lp : NXTorrentListing) : Prop :=
  0 < lp.amount ∧ lp.coinid ≠ env.nxtCoinid ∧ 0 < env.satoshis (env.coins lp.amount) ∧
    ((convCoinstr (coinidStr lp.coinid)).map Int.ofNat).getD (-1) ≠ env.nxtCoinid
deriving Decidable

/-- The `"%.8f"` of an amount fits its buffer, and is nothing but digits and a point. -/
def Printed (str : Text) : Prop := str ≠ [] ∧ str.length < 64 ∧ Unescaped str
deriving Decidable

structure Lossless (env : Env) (lp : NXTorrentListing) : Prop where
  title : Unescaped lp.title
  uri : ∀ str ∈ lp.uri, Unescaped str
  descr : ∀ str ∈ lp.descr, Unescaped str
  listingid : Unescaped lp.listingid
  coinaddr : lp.coinaddr = [] ∨ Unescaped lp.coinaddr ∧ CoinRead env lp
  category : ∀ str ∈ lp.category, Unescaped str
  tag : ∀ str ∈ lp.tag, Unescaped str
  listingAMbits : lp.listingAMbits = 0#64 ∨ lp.seller64bits ≠ 0#64
  status : lp.status ≠ nxtorrentExpired

section
variable {env : Env} {lp : NXTorrentListing} {name : String} {item : Option Json}

/-! ## The fields -/

theorem listingFields_nodup : ((listingFields env lp none none).map fun f => f.1.toList.map tolower).Nodup := by
  have hnames : ((listingFields env lp none none).map fun f => f.1.toList.map tolower) =
      ["seller", "buyer_rating", "seller_rating", "listingid", "title", "price", "NXTsubatomic", "status", "listedtime",
        "expiration", "duration", "buyer", "category1", "category2", "category3", "tag1", "tag2", "tag3", "URI",
        "URIcontents", "description", "listingAMtxid", "feedback"].map fun name => name.toList.map tolower := rfl
  rw [hnames]
  decide +kernel

theorem getObjectItem_listing (h : (name, item) ∈ listingFields env lp none none) :
    getObjectItem (genListingJson env lp none none) name.toList = item :=
  getObjectItem_objectOf listingFields_nodup h

theorem copy_of_string {json : Json} {field str : Text} (h : getObjectItem json field = some (string str)) :
    copyCJSON (getObjectItem json field) = str.flatMap escapeChar := by
  rw [h]
  exact copyCJSON_string str

theorem copy_of_map {json : Json} {field : Text} {str : Option Text}
    (h : getObjectItem json field = str.map string) :
    copyCJSON (getObjectItem json field) = (str.getD []).flatMap escapeChar := by
  cases str with
  | none => rw [h]; rfl
  | some str => exact copy_of_string h

theorem extract_of_string {json : Json} {field str : Text} {max : Nat}
    (h : getObjectItem json field = some (string str)) :
    (extractCJSONStr max json field).2 = (str.flatMap escapeChar).take max := by
  unfold extractCJSONStr
  rw [h]
  exact congrArg (List.take max) (copyCJSON_string str)

/-! ## Texts -/

theorem title_decoded_iff (h : lp.title.length < 128) :
    (decodeNXTorrentJson env (genListingJson env lp none none)).title = lp.title ↔ Unescaped lp.title := by
  have hfield : getObjectItem (genListingJson env lp none none) "title".toList = some (string lp.title) :=
    getObjectItem_listing (by simp [listingFields])
  show (extractCJSONStr 128 _ _).2 = _ ↔ _
  rw [extract_of_string hfield]
  exact take_flatMap_escapeChar_eq_iff h

theorem listingid_decoded_iff :
    (decodeNXTorrentJson env (genListingJson env lp none none)).listingid = lp.listingid ↔ Unescaped lp.listingid := by
  have hfield : getObjectItem (genListingJson env lp none none) "listingid".toList = some (string lp.listingid) :=
    getObjectItem_listing (by simp [listingFields])
  show copyCJSON (getObjectItem (genListingJson env lp none none) "listingid".toList) = _ ↔ _
  rw [copy_of_string hfield]
  exact flatMap_escapeChar_eq_iff

/-- A text behind a pointer. -/
theorem optional_decoded_iff {json : Json} {field : Text} {str : Option Text} (hne : str ≠ some [])
    (h : getObjectItem json field = str.map string) :
    (if copyCJSON (getObjectItem json field) ≠ [] then some (copyCJSON (getObjectItem json field)) else none) = str ↔
      ∀ t ∈ str, Unescaped t := by
  rw [copy_of_map h]
  cases str with
  | none => simp
  | some t =>
    have ht : t.flatMap escapeChar ≠ [] := by
      intro hnil
      have hlen := (length_flatMap_escapeChar t).1
      rw [hnil] at hlen
      exact hne (congrArg some (List.eq_nil_of_length_eq_zero (Nat.le_zero.mp hlen)))
    simp [ht, flatMap_escapeChar_eq_iff]

theorem uri_decoded_iff (h : lp.uri ≠ some []) :
    (decodeNXTorrentJson env (genListingJson env lp none none)).uri = lp.uri ↔ ∀ str ∈ lp.uri, Unescaped str :=
  optional_decoded_iff h (getObjectItem_listing (by simp [listingFields]))

theorem descr_decoded_iff (h : lp.descr ≠ some []) :
    (decodeNXTorrentJson env (genListingJson env lp none none)).descr = lp.descr ↔ ∀ str ∈ lp.descr, Unescaped str :=
  optional_decoded_iff h (getObjectItem_listing (by simp [listingFields]))

theorem three_decoded_iff {json : Json} {texts : List Text} {f g h : Text} (hlen : texts.length = 3)
    (hsmall : ∀ str ∈ texts, str.length < 16) (hf : getObjectItem json f = some (string (texts.getD 0 [])))
    (hg : getObjectItem json g = some (string (texts.getD 1 [])))
    (hh : getObjectItem json h = some (string (texts.getD 2 []))) :
    [(extractCJSONStr 16 json f).2, (extractCJSONStr 16 json g).2, (extractCJSONStr 16 json h).2] = texts ↔
      ∀ str ∈ texts, Unescaped str := by
  obtain ⟨a, b, c, rfl⟩ := List.length_eq_three.mp hlen
  rw [extract_of_string hf, extract_of_string hg, extract_of_string hh]
  simp only [List.forall_mem_cons] at hsmall
  simp only [List.getD_cons_zero, List.getD_cons_succ, List.cons.injEq, and_true, List.forall_mem_cons,
    take_flatMap_escapeChar_eq_iff hsmall.1, take_flatMap_escapeChar_eq_iff hsmall.2.1,
    take_flatMap_escapeChar_eq_iff hsmall.2.2.1]
  simp

theorem category_decoded_iff (h : lp.category.length = 3 ∧ ∀ str ∈ lp.category, str.length < 16) :
    (decodeNXTorrentJson env (genListingJson env lp none none)).category = lp.category ↔
      ∀ str ∈ lp.category, Unescaped str :=
  three_decoded_iff h.1 h.2 (getObjectItem_listing (by simp [listingFields]))
    (getObjectItem_listing (by simp [listingFields])) (getObjectItem_listing (by simp [listingFields]))

theorem tag_decoded_iff (h : lp.tag.length = 3 ∧ ∀ str ∈ lp.tag, str.length < 16) :
    (decodeNXTorrentJson env (genListingJson env lp none none)).tag = lp.tag ↔ ∀ str ∈ lp.tag, Unescaped str :=
  three_decoded_iff h.1 h.2 (getObjectItem_listing (by simp [listingFields]))
    (getObjectItem_listing (by simp [listingFields])) (getObjectItem_listing (by simp [listingFields]))

/-! ## Ids and status -/

theorem unescaped_expandLoop (fuel n : Nat) : Unescaped (expandLoop fuel n) := by
  have hdigit : ∀ d < 10, 31 < (Char.ofNat (d + '0'.toNat)).toNat ∧ Char.ofNat (d + '0'.toNat) ≠ '"' ∧
      Char.ofNat (d + '0'.toNat) ≠ '\\' := by decide
  induction fuel generalizing n with
  | zero => exact List.forall_mem_nil _
  | succ fuel ih =>
    unfold expandLoop
    split
    · exact List.forall_mem_nil _
    · exact List.forall_mem_cons.mpr ⟨hdigit (n % 10) (Nat.mod_lt _ (by decide)), ih (n / 10)⟩

theorem unescaped_expandNxt64bits (bits : BitVec 64) : Unescaped (expandNxt64bits bits) :=
  fun c hc => unescaped_expandLoop 20 bits.toNat c (List.mem_reverse.mp hc)

theorem copy_of_id {json : Json} {field : Text} {bits : BitVec 64}
    (h : getObjectItem json field = if expandNxt64bits bits ≠ [] then some (string (expandNxt64bits bits)) else none) :
    copyCJSON (getObjectItem json field) = expandNxt64bits bits := by
  split at h
  · rw [copy_of_string h, (unescaped_expandNxt64bits _).flatMap_escapeChar]
  · next hempty =>
    rw [h, not_not.mp hempty]
    rfl

theorem calc_decoded (bits : BitVec 64) :
    (if expandNxt64bits bits ≠ [] then calcNxt64bits (expandNxt64bits bits) else 0#64) = bits := by
  split
  · exact calcNxt64bits_expandNxt64bits bits
  · next hempty =>
    rw [not_not] at hempty
    rw [← calcNxt64bits_expandNxt64bits bits, hempty]
    rfl

theorem copy_seller : copyCJSON (getObjectItem (genListingJson env lp none none) "seller".toList) =
    expandNxt64bits lp.seller64bits := by
  have hfield : getObjectItem (genListingJson env lp none none) "seller".toList =
      some (string (expandNxt64bits lp.seller64bits)) := getObjectItem_listing (by simp [listingFields])
  rw [copy_of_string hfield, (unescaped_expandNxt64bits _).flatMap_escapeChar]

theorem seller64bits_decoded :
    (decodeNXTorrentJson env (genListingJson env lp none none)).seller64bits = lp.seller64bits := by
  show (if copyCJSON (getObjectItem _ "seller".toList) ≠ [] then
    calcNxt64bits (copyCJSON (getObjectItem _ "seller".toList)) else _) = _
  rw [copy_seller, calc_decoded]

theorem buyer64bits_decoded :
    (decodeNXTorrentJson env (genListingJson env lp none none)).buyer64bits = lp.buyer64bits := by
  have hcopy : copyCJSON (getObjectItem (genListingJson env lp none none) "buyer".toList) =
      expandNxt64bits lp.buyer64bits := copy_of_id (getObjectItem_listing (by simp [listingFields]))
  show (if copyCJSON (getObjectItem _ "buyer".toList) ≠ [] then calcNxt64bits
      (copyCJSON (getObjectItem _ "buyer".toList))
    else _) = _
  rw [hcopy, calc_decoded]

theorem expandNxt64bits_eq_nil {bits : BitVec 64} : expandNxt64bits bits = [] ↔ bits = 0#64 := by
  constructor
  · intro hempty
    rw [← calcNxt64bits_expandNxt64bits bits, hempty]
    rfl
  · rintro rfl
    rfl

theorem listingAMbits_decoded_iff :
    (decodeNXTorrentJson env (genListingJson env lp none none)).listingAMbits = lp.listingAMbits ↔
      lp.listingAMbits = 0#64 ∨ lp.seller64bits ≠ 0#64 := by
  have hcopy : copyCJSON (getObjectItem (genListingJson env lp none none) "listingAMtxid".toList) =
      expandNxt64bits lp.listingAMbits := by
    apply copy_of_id
    apply getObjectItem_listing
    simp [listingFields, expandNxt64bits_eq_nil]
  show (if copyCJSON (getObjectItem _ "seller".toList) ≠ [] then
    calcNxt64bits (copyCJSON (getObjectItem _ "listingAMtxid".toList)) else _) = _ ↔ _
  rw [copy_seller, hcopy, calcNxt64bits_expandNxt64bits]
  by_cases hzero : lp.seller64bits = 0#64
  · rw [if_neg (not_not.mpr (expandNxt64bits_eq_nil.mpr hzero))]
    constructor
    · intro h
      exact .inl h.symm
    · rintro (h | h)
      · exact h.symm
      · exact absurd hzero h
  · rw [if_pos (mt expandNxt64bits_eq_nil.mp hzero)]
    simp [hzero]

theorem status_decoded_iff (h : 0 ≤ lp.status ∧ lp.status ≤ nxtorrentExpired) :
    (decodeNXTorrentJson env (genListingJson env lp none none)).status = lp.status ↔ lp.status ≠ nxtorrentExpired := by
  have hfield : getObjectItem (genListingJson env lp none none) "status".toList =
      some (string (nxtorrentStatusStr lp.status)) := getObjectItem_listing (by simp [listingFields])
  show convStatusStr (copyCJSON (getObjectItem _ "status".toList)) = _ ↔ _
  rw [copy_of_string hfield]
  have hall : ∀ n < 9, convStatusStr ((nxtorrentStatusStr (n : Nat)).flatMap escapeChar) = (n : Nat) ↔ n ≠ 8 := by
    decide +kernel
  obtain ⟨n, hn⟩ := Int.eq_ofNat_of_zero_le h.1
  have hle : (n : Int) ≤ 8 := hn ▸ h.2
  rw [hn, hall n (by omega)]
  show n ≠ 8 ↔ (n : Int) ≠ 8
  omega

/-! ## The coin address -/

/-- The members of the coin part. -/
def subatomicFields (env : Env) (lp : NXTorrentListing) : List (String × Option Text) :=
  let asset := lp.coinid = env.nxtCoinid ∧ lp.assetidbits ≠ 0#64
  [ ("coin", some (coinidStr lp.coinid)),
    ("assetid", if asset then some (expandNxt64bits lp.assetidbits) else none),
    ("coinaddr", if ¬ asset ∧ lp.coinid ≠ env.nxtCoinid ∧ lp.coinaddr ≠ [] then some lp.coinaddr else none),
    ("amount", some (env.coins lp.amount)) ]

theorem unescaped_coinidStr (coinid : Int) : Unescaped (coinidStr coinid) ∧ coinidStr coinid ≠ [] ∧
    (coinidStr coinid).length < 64 := by
  unfold coinidStr
  split <;> decide

theorem objectOf_strings (fields : List (String × Option Text)) :
    objectOf (fields.map fun f => (f.1, f.2.map string)) =
      object (strings (fields.filterMap fun f => f.2.map fun str => (f.1.toList, str))) := by
  refine congrArg object ?_
  induction fields with
  | nil => rfl
  | cons f fields ih =>
    obtain ⟨name, str⟩ := f
    cases str with
    | none => exact ih
    | some str => exact congrArg ((name.toList, string str) :: ·) ih

/-- An object of strings, some of them left out, is read back from its text. -/
theorem cJSONParse_objectOf (render : Text → Text) {fields : List (String × Option Text)}
    (hsome : ∃ f ∈ fields, f.2 ≠ none) (hnames : ∀ f ∈ fields, readBack f.1.toList = f.1.toList) :
    cJSONParse render (cJSONPrint (objectOf (fields.map fun f => (f.1, f.2.map string)))) =
      some (objectOf ((fields.map fun f => (f.1, f.2.map readBack)).map fun f => (f.1, f.2.map string))) := by
  have hne : (fields.filterMap fun f => f.2.map fun str => (f.1.toList, str)) ≠ [] := by
    obtain ⟨f, hf, hf2⟩ := hsome
    obtain ⟨str, hstr⟩ := Option.ne_none_iff_exists'.mp hf2
    apply List.ne_nil_of_mem (a := (f.1.toList, str))
    exact List.mem_filterMap.mpr ⟨f, hf, by rw [hstr]; rfl⟩
  rw [objectOf_strings, cJSONParse_strings hne, objectOf_strings]
  refine congrArg (fun ms => some (object (strings ms))) ?_
  clear hsome hne
  induction fields with
  | nil => rfl
  | cons f fields ih =>
    obtain ⟨hname, hrest⟩ := List.forall_mem_cons.mp hnames
    obtain ⟨name, str⟩ := f
    cases str with
    | none => exact ih hrest
    | some str => exact congrArg₂ (fun name ms => (name, readBack str) :: ms) hname (ih hrest)

theorem genNXTsubatomicJson_eq :
    genNXTsubatomicJson env lp.coinid lp.assetidbits lp.amount lp.coinaddr =
      if 0 < lp.amount ∧ (lp.coinid = env.nxtCoinid ∨ lp.coinaddr ≠ []) then
        some (objectOf ((subatomicFields env lp).map fun f => (f.1, f.2.map string)))
      else none := by
  unfold genNXTsubatomicJson subatomicFields
  simp only [List.map_cons, List.map_nil, Option.map_some, apply_ite (Option.map string), Option.map_none]

theorem extract_of_unescaped {json : Json} {field str : Text} (h : getObjectItem json field = some (string str))
    (hstr : Unescaped str) (hlen : str.length < 64) : extractCJSONStr 64 json field = ((str.length : Int), str) := by
  unfold extractCJSONStr
  rw [h]
  dsimp only
  rw [copyCJSON_string, hstr.flatMap_escapeChar, if_pos hlen, List.take_of_length_le (Nat.le_of_lt hlen)]

/-- The text of a coin part is read back, with what it has of the coin, the amount and the address. -/
theorem cJSONParse_subatomic (hamount : Unescaped (env.coins lp.amount)) : ∃ json,
    cJSONParse env.render (cJSONPrint (objectOf ((subatomicFields env lp).map fun f => (f.1, f.2.map string)))) =
    some json ∧
      getObjectItem json "coin".toList = some (string (coinidStr lp.coinid)) ∧
      getObjectItem json "amount".toList = some (string (env.coins lp.amount)) ∧
      getObjectItem json "coinaddr".toList =
        if lp.coinid ≠ env.nxtCoinid ∧ lp.coinaddr ≠ [] then some (string (readBack lp.coinaddr)) else none := by
  have hsome : ∃ f ∈ subatomicFields env lp, f.2 ≠ none := ⟨_, List.mem_cons_self, by simp⟩
  have hnames : ∀ f ∈ subatomicFields env lp, readBack f.1.toList = f.1.toList := by
    simp only [subatomicFields, List.forall_mem_cons]
    decide
  have hcoin := (unescaped_coinidStr lp.coinid).1
  have hnodup : (((subatomicFields env lp).map fun f => (f.1, f.2.map readBack)).map
      fun f => (f.1, f.2.map string)).map (fun f => f.1.toList.map tolower) =
      ["coin", "assetid", "coinaddr", "amount"].map fun name => name.toList.map tolower := rfl
  refine ⟨_, cJSONParse_objectOf env.render hsome hnames, ?_⟩
  generalize hread : ((subatomicFields env lp).map fun f => (f.1, f.2.map readBack)).map
    (fun f => (f.1, f.2.map string)) = read at hnodup
  have hget {name : String} {item : Option Json} (hmem : (name, item) ∈ read) :
      getObjectItem (objectOf read) name.toList = item := by
    apply getObjectItem_objectOf _ hmem
    rw [hnodup]
    decide +kernel
  refine ⟨hget ?_, hget ?_, hget ?_⟩
  · rw [← hread]
    simp [subatomicFields, hcoin.readBack]
  · rw [← hread]
    simp [subatomicFields, hamount.readBack]
  · rw [← hread]
    by_cases haddr : lp.coinid ≠ env.nxtCoinid ∧ lp.coinaddr ≠ []
    · rw [if_pos haddr]
      simp [subatomicFields, haddr.1, haddr.2]
    · have hnone : ¬ (¬ (lp.coinid = env.nxtCoinid ∧ lp.assetidbits ≠ 0#64) ∧ lp.coinid ≠ env.nxtCoinid ∧
          lp.coinaddr ≠ []) := fun h => haddr h.2
      simp only [if_neg haddr, subatomicFields, if_neg hnone]
      simp

/-- The coin address that is read from the text of a coin part. -/
theorem coinaddr_isvalid (hcoins : Printed (env.coins lp.amount)) {sub : Subatomic}
    (hsub : sub = isvalidNXTsubatomic env
      (cJSONPrint (objectOf ((subatomicFields env lp).map fun f => (f.1, f.2.map string))))) :
    (if sub.valid ∧ sub.coinid = env.nxtCoinid then [] else sub.coinaddrAssetid) =
      if 0 < env.satoshis (env.coins lp.amount) ∧
          ((convCoinstr (coinidStr lp.coinid)).map Int.ofNat).getD (-1) ≠ env.nxtCoinid ∧
          lp.coinid ≠ env.nxtCoinid ∧ lp.coinaddr ≠ [] then ((readBack lp.coinaddr).flatMap escapeChar).take 64
      else [] := by
  obtain ⟨hcoin, hcoinne, hcoinlen⟩ := unescaped_coinidStr lp.coinid
  obtain ⟨hamountne, hamountlen, hamount⟩ := hcoins
  obtain ⟨json, hparse, hgetcoin, hgetamount, hgetaddr⟩ := cJSONParse_subatomic hamount
  unfold isvalidNXTsubatomic at hsub
  rw [hparse] at hsub
  dsimp only at hsub
  rw [extract_of_unescaped hgetcoin hcoin hcoinlen, extract_of_unescaped hgetamount hamount hamountlen] at hsub
  dsimp only at hsub
  have hpos : 0 < ((coinidStr lp.coinid).length : Int) ∧ 0 < ((env.coins lp.amount).length : Int) := by
    have := List.length_pos_iff.mpr hcoinne
    have := List.length_pos_iff.mpr hamountne
    omega
  rw [if_pos hpos] at hsub
  by_cases hsat : 0 < env.satoshis (env.coins lp.amount)
  · rw [if_pos hsat] at hsub
    by_cases hconv : ((convCoinstr (coinidStr lp.coinid)).map Int.ofNat).getD (-1) = env.nxtCoinid
    · rw [if_pos hconv] at hsub
      rw [hsub, if_pos ⟨rfl, hconv⟩, if_neg fun h => h.2.1 hconv]
    · rw [if_neg hconv] at hsub
      rw [hsub, if_neg fun h => hconv h.2]
      by_cases haddr : lp.coinid ≠ env.nxtCoinid ∧ lp.coinaddr ≠ []
      · rw [if_pos ⟨hsat, hconv, haddr⟩]
        rw [if_pos haddr] at hgetaddr
        exact extract_of_string hgetaddr
      · rw [if_neg fun h => haddr h.2.2]
        rw [if_neg haddr] at hgetaddr
        show (extractCJSONStr 64 _ _).2 = _
        unfold extractCJSONStr
        rw [hgetaddr]
  · rw [if_neg hsat] at hsub
    simp [hsub, hsat]

theorem coinaddr_decoded_iff (hcoins : Printed (env.coins lp.amount)) (h : lp.coinaddr.length < 64) :
    (decodeNXTorrentJson env (genListingJson env lp none none)).coinaddr = lp.coinaddr ↔
      lp.coinaddr = [] ∨ Unescaped lp.coinaddr ∧ CoinRead env lp := by
  have hfield : getObjectItem (genListingJson env lp none none) "NXTsubatomic".toList =
      genNXTsubatomicJson env lp.coinid lp.assetidbits lp.amount lp.coinaddr :=
    getObjectItem_listing (by simp [listingFields])
  show (if (listingSubatomic env (genListingJson env lp none none)).valid ∧
    (listingSubatomic env (genListingJson env lp none none)).coinid = env.nxtCoinid then [] else
    (listingSubatomic env (genListingJson env lp none none)).coinaddrAssetid) = _ ↔ _
  unfold listingSubatomic
  rw [hfield, genNXTsubatomicJson_eq]
  by_cases hgen : 0 < lp.amount ∧ (lp.coinid = env.nxtCoinid ∨ lp.coinaddr ≠ [])
  · rw [if_pos hgen]
    dsimp only
    rw [coinaddr_isvalid hcoins rfl]
    unfold CoinRead
    split
    · next hread =>
      obtain ⟨hsat, hconv, hother, hne⟩ := hread
      rw [take_readBack_eq_iff h]
      exact ⟨fun hplain => .inr ⟨hplain, hgen.1, hother, hsat, hconv⟩, fun hplain => (hplain.resolve_left hne).1⟩
    · next hread =>
      constructor
      · intro hempty
        exact .inl hempty.symm
      · rintro (hempty | ⟨-, -, hother, hsat, hconv⟩)
        · exact hempty.symm
        · exact (not_not.mp fun hne => hread ⟨hsat, hconv, hother, hne⟩).symm
  · rw [if_neg hgen]
    simp only [ite_self]
    unfold CoinRead
    constructor
    · intro hempty
      exact .inl hempty.symm
    · rintro (hempty | ⟨-, hpos, hother, -⟩)
      · exact hempty.symm
      · exact (not_not.mp fun hne => hgen ⟨hpos, .inr hne⟩).symm

end

/-- **A listing comes back from its JSON** exactly when no text needs an escape, the status is not the last
one, the coin address has an amount that is read, and the transaction id has a seller. -/
theorem recovers_iff (env : Env) (lp : NXTorrentListing) (hcoins : Printed (env.coins lp.amount)) (h : Sized lp) :
    Recovers lp (decodeNXTorrentJson env (genListingJson env lp none none)) ↔ Lossless env lp := by
  constructor
  · intro hrec
    exact
      { title := (title_decoded_iff h.title).mp hrec.title
        uri := (uri_decoded_iff h.uri).mp hrec.uri
        descr := (descr_decoded_iff h.descr).mp hrec.descr
        listingid := listingid_decoded_iff.mp hrec.listingid
        coinaddr := (coinaddr_decoded_iff hcoins h.coinaddr).mp hrec.coinaddr
        category := (category_decoded_iff h.category).mp hrec.category
        tag := (tag_decoded_iff h.tag).mp hrec.tag
        listingAMbits := listingAMbits_decoded_iff.mp hrec.listingAMbits
        status := (status_decoded_iff h.status).mp hrec.status }
  · intro hless
    exact
      { title := (title_decoded_iff h.title).mpr hless.title
        uri := (uri_decoded_iff h.uri).mpr hless.uri
        descr := (descr_decoded_iff h.descr).mpr hless.descr
        listingid := listingid_decoded_iff.mpr hless.listingid
        coinaddr := (coinaddr_decoded_iff hcoins h.coinaddr).mpr hless.coinaddr
        category := (category_decoded_iff h.category).mpr hless.category
        tag := (tag_decoded_iff h.tag).mpr hless.tag
        seller64bits := seller64bits_decoded
        buyer64bits := buyer64bits_decoded
        listingAMbits := listingAMbits_decoded_iff.mpr hless.listingAMbits
        status := (status_decoded_iff h.status).mpr hless.status }

/-- A listing for two coins, with this title. -/
def titled (title : String) : NXTorrentListing where
  seller64bits := 7
  buyer64bits := 5
  amount := 200000000
  coinid := 4
  coinaddr := "DBXu2kgc3xtvCUWFcxFE3r9hEYgmuaaCyD".toList
  listingid := "1".toList
  title := title.toList
  descr := some "as new".toList
  uri := some "http://a.b/c".toList
  category := ["disks".toList, [], []]
  tag := ["old".toList, "small".toList, []]
  listingAMbits := 11

theorem sized_titled {title : String} (h : title.toList.length < 128) : Sized (titled title) where
  title := h
  coinaddr := by simp [titled]
  category := by simp [titled]
  tag := by simp [titled]
  uri := by simp [titled]
  descr := by simp [titled]
  status := by simp [titled, nxtorrentExpired]

theorem recovers_iff_titled : Recovers (titled "5 inch disk")
      (decodeNXTorrentJson wholeEnv (genListingJson wholeEnv (titled "5 inch disk") none none)) ↔
    Lossless wholeEnv (titled "5 inch disk") :=
  recovers_iff wholeEnv (titled "5 inch disk") (by decide) (sized_titled (by decide))

/-- A quote comes back with a backslash. -/
theorem not_forall_recovers : ¬ ∀ (env : Env) (lp : NXTorrentListing), Printed (env.coins lp.amount) → Sized lp →
    Recovers lp (decodeNXTorrentJson env (genListingJson env lp none none)) := by
  intro h
  have htitle := (h wholeEnv (titled "5\" disk") (by decide) (sized_titled (by decide))).title
  exact absurd htitle (by decide +kernel)

end NXTServices.Torrent
