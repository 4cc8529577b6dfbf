import NXTServices.Gateway.Comment

/-!
# What is copied out of a comment: `multigateway.h` and `cJSON.c`

* `Copy` : a call of `copy_cJSON`, with the size of the array that is written;
* `asseteventCopies` : the calls of `multigateway_assetevent`, in order;
* `printedWidth` : how many bytes an item is written with;
* `CommentFits`, `copies_fit_iff` : the comments whose texts fit;
* `not_fits_of_long_txid` : the ids of coin transactions do not.
-/

namespace NXTServices.Gateway
open Json hiding null true false

/-! ## The copies -/

structure Copy where
  size : Nat
  text : Text
deriving DecidableEq

/-- The text and its null stay within the array. -/
def Copy.Fits (cp : Copy) : Prop := cp.text.length < cp.size
deriving Decidable

/-- `char coinname[16]` from the item `name`, and an array of `size` bytes from `item` when the name is the coin's. A
name that does not fit is none of a coin. -/
def namedCopies (coinid : Nat) (name : Json) (size : Nat) (item : Option Json) : List Copy :=
  let coinname := copyCJSON (some name)
  if convCoinstr coinname = some coinid then [⟨16, coinname⟩, ⟨size, copyCJSON item⟩] else [⟨16, coinname⟩]

/-- The copies for an asset of `coinid`: `char withdrawaddr[512],coinname[16],cointxid[64]`. -/
def commentCopies (coinid : Nat) (sender : Text) (json : Json) : List Copy :=
  match getObjectItem json "crosschain".toList with
  | some name => namedCopies coinid name 64 (getObjectItem json "cointxid".toList)
  | none =>
    if sender = nxtIssuerAcct ∨ sender = genesisAcct ∨ isGatewayAddr sender then []
    else
      match getObjectItem json "redeem".toList with
      | none => []
      | some name => namedCopies coinid name 512 (getObjectItem json "coinaddr".toList)

def asseteventCopies (render : Text → Text) (gp : GatewayInfo) (ev : AssetEvent) : List Copy :=
  match convAssetid ev.assetid with
  | none => []
  | some coinid =>
    if gp.keeps coinid then
      match cJSONParse render ev.text with
      | none => []
      | some json => commentCopies coinid ev.sender json
    else []

/-! ## The width of an item -/

/-- How many bytes a character of a string is printed with. -/
def escapeWidth (c : Char) : Nat :=
  if c = '"' ∨ c = '\\' ∨ c.toNat ∈ [8, 9, 10, 12, 13] then 2 else if 31 < c.toNat then 1 else 6

/-- How many bytes `copy_cJSON` writes for an item before the null. -/
def printedWidth : Option Json → Nat
  | none => 0
  | some (.string str) => (str.map escapeWidth).sum
  | some item => (stripquotes (cJSONPrint item)).length

theorem length_escapeChar (c : Char) : (escapeChar c).length = escapeWidth c := by
  have hsmall : ∀ n < 32, (escapeChar (Char.ofNat n)).length = escapeWidth (Char.ofNat n) := by decide
  by_cases hlow : c.toNat < 32
  · rw [← Char.ofNat_toNat c]
    exact hsmall c.toNat hlow
  · by_cases hquoted : c = '"' ∨ c = '\\'
    · rcases hquoted with rfl | rfl
      · rfl
      · rfl
    · obtain ⟨hquote, hback⟩ := not_or.mp hquoted
      have hspecial : ¬ (c = '"' ∨ c = '\\' ∨ c.toNat ∈ [8, 9, 10, 12, 13]) := by
        simp only [hquote, hback, List.mem_cons, List.not_mem_nil, or_false, false_or]
        omega
      rw [escapeChar, escapeWidth, if_pos ⟨by omega, hquote, hback⟩, if_neg hspecial, if_pos (by omega)]
      rfl

theorem length_flatMap_escapeChar_eq (str : Text) : (str.flatMap escapeChar).length = (str.map escapeWidth).sum := by
  rw [List.length_flatMap]
  exact congrArg List.sum (List.map_congr_left fun c _ => length_escapeChar c)

theorem length_copyCJSON (item : Option Json) : (copyCJSON item).length = printedWidth item := by
  cases item with
  | none => rfl
  | some item =>
    cases item with
    | string str =>
      rw [copyCJSON_string]
      exact length_flatMap_escapeChar_eq str
    | _ => rfl

/-! ## The comments whose texts fit -/

/-- The item `name` of the comment is the coin's name. -/
def NamesCoin (coinid : Nat) (json : Json) (name : String) : Prop :=
  convCoinstr (copyCJSON (getObjectItem json name.toList)) = some coinid

instance (coinid : Nat) (json : Json) (name : String) : Decidable (NamesCoin coinid json name) :=
  inferInstanceAs (Decidable (_ = _))

/-- The name of the coin comes with an item that is written with fewer than `size` bytes; any other name is written with
fewer than 16. -/
def FieldsFit (coinid : Nat) (json : Json) (name field : String) (size : Nat) : Prop :=
  if NamesCoin coinid json name then printedWidth (getObjectItem json field.toList) < size
  else printedWidth (getObjectItem json name.toList) < 16

/-- The comment of a transfer of a coin that the node keeps, which is no JSON or has items of the right width. -/
def CommentFits (render : Text → Text) (gp : GatewayInfo) (ev : AssetEvent) : Prop :=
  ∀ coinid json, convAssetid ev.assetid = some coinid → gp.keeps coinid → cJSONParse render ev.text = some json →
    if (getObjectItem json "crosschain".toList).isSome then FieldsFit coinid json "crosschain" "cointxid" 64
    else
      ev.sender = nxtIssuerAcct ∨ ev.sender = genesisAcct ∨ isGatewayAddr ev.sender ∨
        FieldsFit coinid json "redeem" "coinaddr" 512

theorem length_of_convCoinstr {name : Text} {coinid : Nat} (h : convCoinstr name = some coinid) : name.length < 16 := by
  have hname := List.find?_some h
  rw [← beq_iff_eq.mp hname]
  exact length_coinidStr coinid

theorem namedCopies_fit_iff {coinid : Nat} {json item : Json} {name field : String} {size : Nat}
    (h : getObjectItem json name.toList = some item) :
    (∀ cp ∈ namedCopies coinid item size (getObjectItem json field.toList), cp.Fits) ↔
      FieldsFit coinid json name field size := by
  have hnames : NamesCoin coinid json name ↔ convCoinstr (copyCJSON (some item)) = some coinid := by rw [NamesCoin, h]
  unfold namedCopies FieldsFit
  by_cases hcoin : NamesCoin coinid json name
  · rw [if_pos (hnames.mp hcoin), if_pos hcoin, List.forall_mem_cons, List.forall_mem_singleton, ← length_copyCJSON]
    exact and_iff_right (length_of_convCoinstr (hnames.mp hcoin))
  · rw [if_neg (mt hnames.mpr hcoin), if_neg hcoin, List.forall_mem_singleton, h, ← length_copyCJSON]
    exact Iff.rfl

theorem convCoinstr_nil : convCoinstr [] = none := by decide

theorem fieldsFit_of_missing {coinid : Nat} {json : Json} {name field : String} {size : Nat}
    (h : getObjectItem json name.toList = none) : FieldsFit coinid json name field size := by
  have hnames : ¬ NamesCoin coinid json name := by
    rw [NamesCoin, h, show copyCJSON none = [] from rfl, convCoinstr_nil]
    exact nofun
  unfold FieldsFit
  rw [if_neg hnames, h]
  decide

theorem commentCopies_fit_iff {coinid : Nat} {sender : Text} {json : Json} :
    (∀ cp ∈ commentCopies coinid sender json, cp.Fits) ↔
      if (getObjectItem json "crosschain".toList).isSome then FieldsFit coinid json "crosschain" "cointxid" 64
      else
        sender = nxtIssuerAcct ∨ sender = genesisAcct ∨ isGatewayAddr sender ∨
          FieldsFit coinid json "redeem" "coinaddr" 512 := by
  unfold commentCopies
  cases hcross : getObjectItem json "crosschain".toList with
  | some name => exact namedCopies_fit_iff hcross
  | none =>
    simp only [Option.isSome_none, Bool.false_eq_true, if_false]
    by_cases hsender : sender = nxtIssuerAcct ∨ sender = genesisAcct ∨ isGatewayAddr sender
    · rw [if_pos hsender]
      refine iff_of_true (List.forall_mem_nil _) ?_
      rcases hsender with hissuer | hgenesis | hgateway
      · exact .inl hissuer
      · exact .inr (.inl hgenesis)
      · exact .inr (.inr (.inl hgateway))
    · obtain ⟨hissuer, hgenesis, hgateway⟩ :
          sender ≠ nxtIssuerAcct ∧ sender ≠ genesisAcct ∧ ¬ isGatewayAddr sender := by
        rwa [not_or, not_or] at hsender
      rw [if_neg hsender, or_iff_right hissuer, or_iff_right hgenesis, or_iff_right hgateway]
      cases hredeem : getObjectItem json "redeem".toList with
      | some name => exact namedCopies_fit_iff hredeem
      | none => exact iff_of_true (List.forall_mem_nil _) (fieldsFit_of_missing hredeem)

/-- **Which comments fit the arrays of `multigateway_assetevent`.** -/
theorem copies_fit_iff (render : Text → Text) (gp : GatewayInfo) (ev : AssetEvent) :
    (∀ cp ∈ asseteventCopies render gp ev, cp.text.length < cp.size) ↔ CommentFits render gp ev := by
  unfold asseteventCopies CommentFits
  cases hconv : convAssetid ev.assetid with
  | none => exact iff_of_true (List.forall_mem_nil _) fun _ _ h => nomatch h
  | some coinid =>
    dsimp only
    split
    · next hkeeps =>
      cases hparse : cJSONParse render ev.text with
      | none => exact iff_of_true (List.forall_mem_nil _) fun _ _ _ _ h => nomatch h
      | some json =>
        refine commentCopies_fit_iff.trans ⟨fun hfit k item hk _ hitem => ?_, fun hall => hall _ _ rfl hkeeps rfl⟩
        cases hk
        cases hitem
        exact hfit
    · next hkeeps =>
      refine iff_of_true (List.forall_mem_nil _) fun k _ hk hkept => ?_
      cases hk
      exact absurd hkept hkeeps

/-- An id of 64 digits or more does not fit. -/
theorem not_fits_of_long_txid {render : Text → Text} {gp : GatewayInfo} {ev : AssetEvent} {coinid : Nat}
    {json name : Json} {txid : Text} (hconv : convAssetid ev.assetid = some coinid) (hkeeps : gp.keeps coinid)
    (hparse : cJSONParse render ev.text = some json) (hname : getObjectItem json "crosschain".toList = some name)
    (hcoin : convCoinstr (copyCJSON (some name)) = some coinid)
    (htxid : getObjectItem json "cointxid".toList = some (string txid)) (hlong : 64 ≤ txid.length) :
    ¬ ∀ cp ∈ asseteventCopies render gp ev, cp.text.length < cp.size := by
  intro hall
  have hcopies : asseteventCopies render gp ev
      = [⟨16, copyCJSON (some name)⟩, ⟨64, copyCJSON (some (string txid))⟩] := by
    simp only [asseteventCopies, hconv, hkeeps, if_true, hparse, commentCopies, hname, namedCopies, hcoin, htxid]
  have hshort := hall ⟨64, copyCJSON (some (string txid))⟩ (by simp [hcopies])
  rw [copyCJSON_string] at hshort
  have hwidth := (length_flatMap_escapeChar txid).1
  exact absurd hshort (by dsimp only; omega)

/-- The items that are read of the comment of a transfer. -/
def txidJson : Json := object [("crosschain".toList, string "BTC".toList), ("cointxid".toList, string bitcoinTxid)]

/-- A transfer for a deposit of `bitcoinTxid`, with the comment as `process_NXTtransaction` keeps it. -/
def txidTransfer : AssetEvent where
  sender := "7".toList
  receiver := "8".toList
  txid := "9".toList
  assetid := assetidStr 1
  assetoshis := 1#64
  comment := some ((flat txidJson).flatMap escapeChar)
  positive := toInt_one_pos
  txid_ne := calcNxt64bits_nine_ne

/-- A gateway that keeps BTC. -/
def bitcoinGateway : GatewayInfo := { gatewayid := 0, replicants := fun k => k == 1, daemons := fun k => k == 1 }

/-- The id of a bitcoin transaction does not fit. -/
theorem not_forall_copies_fit : ¬ ∀ (render : Text → Text) (gp : GatewayInfo) (ev : AssetEvent),
    (∀ comment ∈ ev.comment, comment.length ≤ 1023) →
      ∀ cp ∈ asseteventCopies render gp ev, cp.text.length < cp.size := by
  intro h
  have hbare : ∀ str ∈ ["crosschain".toList, "BTC".toList, "cointxid".toList, bitcoinTxid],
      Bare str := by decide +kernel
  have hcompact : Compact id txidJson :=
    ⟨hbare _ (by simp), hbare _ (by simp), hbare _ (by simp), hbare _ (by simp), trivial⟩
  have hparse : cJSONParse id txidTransfer.text = some txidJson := cJSONParse_comment hcompact
  have hlength : ∀ comment ∈ txidTransfer.comment, comment.length ≤ 1023 := by
    intro comment hcomment
    cases hcomment
    decide +kernel
  have hconv : convAssetid txidTransfer.assetid = some 1 := by decide +kernel
  have hcoin : convCoinstr (copyCJSON (some (string "BTC".toList))) = some 1 := by decide +kernel
  exact not_fits_of_long_txid hconv (by decide) hparse rfl hcoin rfl (by decide +kernel)
    (h id bitcoinGateway txidTransfer hlength)

end NXTServices.Gateway
