import NXTServices.Hashtable
import NXTServices.Json
import Mathlib.Algebra.BigOperators.Group.Finset.Piecewise
import Mathlib.Algebra.BigOperators.Group.Finset.Sigma

/-!
# The asset ledger of `NXTprotocol.c`

* `NXThandlerInfo` : the tables of hashes, assets and asset transactions, and the accounts;
* `NXTtransaction`, `readTransaction` : what is read of the answer to `getTransaction`;
* `processNXTtransaction` : the ledger part of the function;
* `Movement` : what a transaction moves, as the chain means it;
* `Identified`, `Regular` : the runs of calls the law is about;
* `held_eq_sum` : the books hold what the processed transactions moved.
-/

namespace NXTServices

/-- `GENESISACCT`. -/
def genesisAcct : Text := "1739068987193023818".toList

namespace Ledger
open Hashtable

/-! ## The state -/

structure NXTGuid where
  txid : Text

structure NXTAssettxid where
  txidbits : BitVec 64 := 0
  assetbits : BitVec 64 := 0
  senderbits : BitVec 64 := 0
  receiverbits : BitVec 64 := 0
  quantity : BitVec 64 := 0
  comment : Option Text := none

/-- `txids` are the keys of the transactions. -/
structure NXTAsset where
  assetbits : BitVec 64 := 0
  txids : List Text := []

/-- The three parallel arrays of an account; `assets` are keys of the asset table. -/
structure NXTAcct where
  assets : List Text := []
  quantities : List (BitVec 64) := []
  txlists : List (List Text) := []

/-- `get_NXTacct` answers the one record of an address, which is blank at first. -/
structure NXThandlerInfo where
  guids : Table NXTGuid := Table.empty
  assets : Table NXTAsset := Table.empty
  assetTxids : Table NXTAssettxid := Table.empty
  accts : Text → NXTAcct := fun _ => {}

def NXThandlerInfo.setAcct (mp : NXThandlerInfo) (nxtAddr : Text) (acct : NXTAcct) : NXThandlerInfo :=
  { mp with accts := Function.update mp.accts nxtAddr acct }

/-- `ap->assetbits`. -/
def NXThandlerInfo.assetbits (mp : NXThandlerInfo) (ap : Text) : BitVec 64 :=
  match mp.assets ap with
  | none => 0
  | some ap => ap.assetbits

/-! ## The operations -/

/-- The index of the asset and the account; `none` is `-1`. -/
def getAssetInAcct (assetbits : Text → BitVec 64) (acct : NXTAcct) (ap : Text) (createflag : Bool) :
    Option Nat × NXTAcct :=
  match acct.assets.findIdx? fun a => assetbits a == assetbits ap with
  | some i => (some i, acct)
  | none =>
    if createflag then
      (some acct.assets.length,
        { assets := acct.assets ++ [ap]
          quantities := acct.quantities ++ [0]
          txlists := acct.txlists ++ [[]] })
    else (none, acct)

def addtoAccountTxlist (acct : NXTAcct) (ind : Nat) (tp : Text) : NXTAcct :=
  { acct with txlists := acct.txlists.modify ind (· ++ [tp]) }

def addQuantity (acct : NXTAcct) (ind : Nat) (quantity : BitVec 64) : NXTAcct :=
  { acct with quantities := acct.quantities.modify ind (· + quantity) }

/-- `transfer_asset_balance` once the asset is found. -/
def moveQuantity (mp : NXThandlerInfo) (ap tp sender receiver : Text) (quantity : BitVec 64) :
    NXThandlerInfo :=
  let (srcind, src) := getAssetInAcct mp.assetbits (mp.accts sender) ap true
  let mp := mp.setAcct sender src
  let (destind, dest) := getAssetInAcct mp.assetbits (mp.accts receiver) ap true
  let mp := mp.setAcct receiver dest
  match srcind, destind with
  | some srcind, some destind =>
    let mp := mp.setAcct sender
      (addtoAccountTxlist (addQuantity (mp.accts sender) srcind (-quantity)) srcind tp)
    mp.setAcct receiver
      (addtoAccountTxlist (addQuantity (mp.accts receiver) destind quantity) destind tp)
  | _, _ => mp

def transferAssetBalance (mp : NXThandlerInfo) (tp : Text) (assetbits : BitVec 64)
    (sender receiver : Text) (quantity : BitVec 64) : NXThandlerInfo :=
  if sender = [] ∨ receiver = [] then mp
  else
    let ap := mp.assets.add 24 (expandNxt64bits assetbits) {}
    moveQuantity { mp with assets := ap.table } ap.key tp sender receiver quantity

/-- The transaction when the call created it. -/
def addNXTAssettxid (mp : NXThandlerInfo) (assetid txid : Text) : Option Text × NXThandlerInfo :=
  let ap := mp.assets.add 24 assetid { assetbits := calcNxt64bits assetid }
  let tp := mp.assetTxids.add 24 txid
    { assetbits := calcNxt64bits assetid, txidbits := calcNxt64bits txid }
  if tp.created then
    (some tp.key, { mp with
      assets := ap.table.modify ap.key fun a => { a with txids := a.txids ++ [tp.key] }
      assetTxids := tp.table })
  else (none, { mp with assets := ap.table, assetTxids := tp.table })

/-- The asset part of an attachment. -/
structure AssetAttachment where
  assetid : Text
  comment : Text
  quantityQNT : Int
deriving DecidableEq

/-- What `process_NXTtransaction` reads of an answer. -/
structure NXTtransaction where
  hash : Option Text
  type : Int
  subtype : Int
  sender : Text
  receiver : Text
  message : Option Text
  asset : Option AssetAttachment
deriving DecidableEq

def readTransaction (json : Json) : NXTtransaction :=
  let field (obj : Json) (name : String) : Option Json := obj.getObjectItem name.toList
  let attachment := field json "attachment"
  { hash := (field json "hash").map fun obj => Json.copyCJSON obj
    type := json.getCJSONInt "type".toList
    subtype := json.getCJSONInt "subtype".toList
    sender := Json.copyCJSON (match field json "sender" with
      | none => field json "accountId"
      | some obj => some obj)
    receiver := Json.copyCJSON (field json "recipient")
    message := (attachment.bind fun a => field a "message").map fun obj => Json.copyCJSON obj
    asset := attachment.bind fun a => (field a "asset").map fun assetjson =>
      { assetid := Json.copyCJSON assetjson
        comment := Json.copyCJSON (field a "comment")
        quantityQNT := a.getCJSONInt "quantityQNT".toList } }

/-- The asset branch, which a message keeps from being taken. -/
def processAsset (mp : NXThandlerInfo) (txid : Text) (tx : NXTtransaction) (a : AssetAttachment) :
    NXThandlerInfo :=
  match addNXTAssettxid mp a.assetid txid with
  | (some tp, mp) =>
    if tx.type = 2 then
      let quantity := BitVec.ofInt 64 a.quantityQNT
      let mp := { mp with assetTxids := mp.assetTxids.modify tp fun t =>
        { t with
          comment := if a.comment = [] then t.comment else some a.comment
          quantity := quantity } }
      let between (senderbits receiverbits : BitVec 64) : NXThandlerInfo :=
        { mp with assetTxids := mp.assetTxids.modify tp fun t =>
          { t with senderbits := senderbits, receiverbits := receiverbits } }
      if tx.subtype = 0 then
        if tx.receiver = genesisAcct then
          transferAssetBalance (between (calcNxt64bits genesisAcct) (calcNxt64bits tx.sender)) tp
            (calcNxt64bits a.assetid) genesisAcct tx.sender quantity
        else mp
      else if tx.subtype = 1 then
        transferAssetBalance (between (calcNxt64bits tx.sender) (calcNxt64bits tx.receiver)) tp
          (calcNxt64bits a.assetid) tx.sender tx.receiver quantity
      else mp
    else (addNXTAssettxid mp a.assetid txid).2
  | (none, mp) => (addNXTAssettxid mp a.assetid txid).2

/-- The call up to the event it hands on, which is no part of the ledger. No answer is `none`. -/
def processNXTtransaction (mp : NXThandlerInfo) (txid : Text) (response : Option Json) :
    NXThandlerInfo :=
  match response with
  | none => mp
  | some json =>
    let tx := readTransaction json
    let (duplicate, mp) := match tx.hash with
      | none => (false, mp)
      | some hash =>
        let gp := mp.guids.add 88 hash { txid := txid }
        (!gp.created, { mp with guids := gp.table })
    if duplicate then mp
    else
      match tx.message, tx.asset with
      | none, some a => processAsset mp txid tx a
      | _, _ => mp

/-! ## What the chain means -/

/-- A quantity of an asset that changes hands. -/
structure Movement where
  assetid : Text
  sender : Text
  receiver : Text
  quantity : BitVec 64

/-- An issue (type 2, subtype 0, to the genesis account) or a transfer (type 2, subtype 1). -/
def NXTtransaction.movement (tx : NXTtransaction) : Option Movement :=
  match tx.asset with
  | none => none
  | some a =>
    if tx.type = 2 ∧ tx.subtype = 0 ∧ tx.receiver = genesisAcct then
      some ⟨a.assetid, genesisAcct, tx.sender, BitVec.ofInt 64 a.quantityQNT⟩
    else if tx.type = 2 ∧ tx.subtype = 1 then
      some ⟨a.assetid, tx.sender, tx.receiver, BitVec.ofInt 64 a.quantityQNT⟩
    else none

/-- What an account receives less what it sends, counted when `same` holds of the asset. -/
def Movement.net (m : Movement) (same : Bool) (addr : Text) : BitVec 64 :=
  if same then (if m.receiver = addr then m.quantity else 0) - (if m.sender = addr then m.quantity else 0)
  else 0

/-- Received less sent by an account in one asset. -/
def NXTtransaction.flow (tx : NXTtransaction) (addr assetid : Text) : BitVec 64 :=
  match tx.movement with
  | none => 0
  | some m => m.net (m.assetid == assetid) addr

/-- One call of `process_NXTtransaction` and what the server answers to it. -/
structure Call where
  txid : Text
  response : Option Json

def run (calls : List Call) : NXThandlerInfo :=
  calls.foldl (fun mp c => processNXTtransaction mp c.txid c.response) {}

/-- The distinct transactions of the calls that got an answer. -/
def processed (calls : List Call) : Finset Text :=
  ((calls.filter fun c => c.response.isSome).map Call.txid).toFinset

/-- The quantity an account holds of an asset. -/
def held (mp : NXThandlerInfo) (addr assetid : Text) : BitVec 64 :=
  if (mp.assets assetid).isSome then
    match (getAssetInAcct mp.assetbits (mp.accts addr) assetid false).1 with
    | some i => (mp.accts addr).quantities.getD i 0
    | none => 0
  else 0

/-- The decimal text of a 64-bit number, `0` included. -/
def CanonicalId (assetid : Text) : Prop := ∃ n < 2 ^ 64, assetid = Nat.toDigits 10 n

/-- Some processed transaction is about the asset. -/
def Uses (chain : Text → NXTtransaction) (calls : List Call) (assetid : Text) : Prop :=
  ∃ t ∈ processed calls, ∃ a, (chain t).asset = some a ∧ a.assetid = assetid

/-- The txids and hashes identify the transactions, the asset ids are canonical and the accounts that
move an asset have a name. -/
structure Identified (chain : Text → NXTtransaction) (calls : List Call) : Prop where
  answers : ∀ c ∈ calls, ∀ json, c.response = some json → readTransaction json = chain c.txid
  txids : ∀ t ∈ processed calls, ValidKey 24 t
  hashes : ∀ t ∈ processed calls, ∀ h, (chain t).hash = some h → ValidKey 88 h
  hash_inj : ∀ t ∈ processed calls, ∀ t' ∈ processed calls, ∀ h, (chain t).hash = some h →
    (chain t').hash = some h → t = t'
  canonical : ∀ assetid, Uses chain calls assetid → CanonicalId assetid
  named : ∀ t ∈ processed calls, ∀ m, (chain t).movement = some m → m.sender ≠ [] ∧ m.receiver ≠ []

/-- No transaction carries a message beside the asset it moves, and the asset `0`, whose number has
no text, does not meet the asset whose id is the key the tables use for a missing one. -/
structure Regular (chain : Text → NXTtransaction) (calls : List Call) : Prop extends
    Identified chain calls where
  silent : ∀ t ∈ processed calls, (chain t).movement ≠ none → (chain t).message = none
  apart : ¬ (Uses chain calls "0".toList ∧ Uses chain calls "123456".toList)

/-! ## One account -/

/-- The slot of an asset number. -/
def NXTAcct.slot (acct : NXTAcct) (assetbits : Text → BitVec 64) (bits : BitVec 64) : Option Nat :=
  acct.assets.findIdx? fun a => assetbits a == bits

/-- What an account holds under an asset number. -/
def NXTAcct.holds (acct : NXTAcct) (assetbits : Text → BitVec 64) (bits : BitVec 64) : BitVec 64 :=
  match acct.slot assetbits bits with
  | some i => acct.quantities.getD i 0
  | none => 0

/-- The arrays have one length and the assets are in the table. -/
structure NXTAcct.Aligned (acct : NXTAcct) (assets : Table NXTAsset) : Prop where
  length_eq : acct.quantities.length = acct.assets.length
  listed : ∀ a ∈ acct.assets, (assets a).isSome

section Account
variable {acct : NXTAcct} {assetbits : Text → BitVec 64} {assets : Table NXTAsset}

theorem NXTAcct.holds_congr {assetbits' : Text → BitVec 64}
    (h : ∀ a ∈ acct.assets, assetbits' a = assetbits a) (bits : BitVec 64) :
    acct.holds assetbits' bits = acct.holds assetbits bits := by
  have hslot (f : Text → BitVec 64) :
      acct.slot f bits = (acct.assets.map f).findIdx? (· == bits) := by
    rw [List.findIdx?_map]
    rfl
  unfold NXTAcct.holds
  rw [hslot, hslot, List.map_congr_left h]

theorem NXTAcct.Aligned.mono {assets' : Table NXTAsset} (h : acct.Aligned assets)
    (hsub : ∀ a, (assets a).isSome → (assets' a).isSome) : acct.Aligned assets' :=
  ⟨h.length_eq, fun a ha => hsub a (h.listed a ha)⟩

theorem getAssetInAcct_of_slot {ap : Text} {i : Nat} (h : acct.slot assetbits (assetbits ap) = some i)
    (createflag : Bool) : getAssetInAcct assetbits acct ap createflag = (some i, acct) := by
  unfold getAssetInAcct
  unfold NXTAcct.slot at h
  rw [h]

/-- An asset that has no slot gets one that holds nothing. -/
theorem getAssetInAcct_create (assetbits : Text → BitVec 64) (h : acct.Aligned assets) {ap : Text}
    (hap : (assets ap).isSome) :
    ∃ i acct', getAssetInAcct assetbits acct ap true = (some i, acct') ∧ acct'.Aligned assets ∧
      acct'.slot assetbits (assetbits ap) = some i ∧
      ∀ bits, acct'.holds assetbits bits = acct.holds assetbits bits := by
  cases hslot : acct.slot assetbits (assetbits ap) with
  | some i => exact ⟨i, acct, getAssetInAcct_of_slot hslot true, h, hslot, fun _ => rfl⟩
  | none =>
    refine ⟨acct.assets.length, ⟨acct.assets ++ [ap], acct.quantities ++ [0], acct.txlists ++ [[]]⟩,
      ?_, ⟨by simp [h.length_eq], ?_⟩, ?_, fun bits => ?_⟩
    · unfold NXTAcct.slot at hslot
      simp [getAssetInAcct, hslot]
    · intro a ha
      rcases List.mem_append.mp ha with ha | ha
      · exact h.listed a ha
      · rw [List.mem_singleton.mp ha]
        exact hap
    · unfold NXTAcct.slot at hslot ⊢
      rw [List.findIdx?_append, hslot]
      simp
    · unfold NXTAcct.holds NXTAcct.slot
      rw [List.findIdx?_append]
      cases hfind : acct.assets.findIdx? fun a => assetbits a == bits with
      | some i =>
        have hlt : i < acct.quantities.length := by
          rw [h.length_eq]
          exact (List.findIdx?_eq_some_iff_getElem.mp hfind).1
        simp [List.getD_eq_getElem?_getD, List.getElem?_append_left hlt]
      | none =>
        by_cases heq : assetbits ap = bits <;>
          simp [heq, List.getD_eq_getElem?_getD, ← h.length_eq]

theorem addQuantity_holds (h : acct.Aligned assets) {ap : Text} {i : Nat}
    (hslot : acct.slot assetbits (assetbits ap) = some i) (quantity bits : BitVec 64) :
    (addQuantity acct i quantity).holds assetbits bits =
      acct.holds assetbits bits + if bits = assetbits ap then quantity else 0 := by
  obtain ⟨hi, hbits, -⟩ := List.findIdx?_eq_some_iff_getElem.mp hslot
  have hsame : (addQuantity acct i quantity).slot assetbits bits = acct.slot assetbits bits := rfl
  unfold NXTAcct.holds
  rw [hsame]
  by_cases heq : bits = assetbits ap
  · subst heq
    rw [hslot, if_pos rfl]
    rw [← h.length_eq] at hi
    simp [addQuantity, List.getD_eq_getElem?_getD, hi]
  · rw [if_neg heq, add_zero]
    cases hother : acct.slot assetbits bits with
    | none => rfl
    | some j =>
      obtain ⟨hj, hbits', -⟩ := List.findIdx?_eq_some_iff_getElem.mp hother
      have hne : i ≠ j := by
        rintro rfl
        rw [beq_iff_eq] at hbits hbits'
        exact heq (hbits'.symm.trans hbits)
      simp [addQuantity, List.getD_eq_getElem?_getD, hne]

end Account

/-! ## One transfer -/

@[simp] theorem setAcct_assets (mp : NXThandlerInfo) (addr : Text) (acct : NXTAcct) :
    (mp.setAcct addr acct).assets = mp.assets := rfl

@[simp] theorem setAcct_assetbits (mp : NXThandlerInfo) (addr : Text) (acct : NXTAcct) :
    (mp.setAcct addr acct).assetbits = mp.assetbits := rfl

/-- Every account is aligned. -/
def NXThandlerInfo.Aligned (mp : NXThandlerInfo) : Prop := ∀ addr, (mp.accts addr).Aligned mp.assets

def NXThandlerInfo.holds (mp : NXThandlerInfo) (addr : Text) (bits : BitVec 64) : BitVec 64 :=
  (mp.accts addr).holds mp.assetbits bits

theorem NXThandlerInfo.Aligned.setAcct {mp : NXThandlerInfo} (h : mp.Aligned) {addr : Text} {acct : NXTAcct}
    (hacct : acct.Aligned mp.assets) : (mp.setAcct addr acct).Aligned := by
  intro a
  by_cases ha : a = addr
  · subst ha
    simpa [NXThandlerInfo.setAcct] using hacct
  · simpa [NXThandlerInfo.setAcct, ha] using h a

theorem holds_setAcct (mp : NXThandlerInfo) {addr : Text} {acct : NXTAcct} {bits δ : BitVec 64}
    (h : acct.holds mp.assetbits bits = mp.holds addr bits + δ) (a : Text) :
    (mp.setAcct addr acct).holds a bits = mp.holds a bits + if addr = a then δ else 0 := by
  unfold NXThandlerInfo.holds at h ⊢
  rw [setAcct_assetbits]
  by_cases ha : a = addr
  · subst ha
    simp [NXThandlerInfo.setAcct, h]
  · simp [NXThandlerInfo.setAcct, ha, Ne.symm ha]

/-- What a transfer does to the books. -/
structure Transferred (mp mp' : NXThandlerInfo) (ap sender receiver : Text) (quantity : BitVec 64) : Prop where
  guids : mp'.guids = mp.guids
  assetTxids : mp'.assetTxids = mp.assetTxids
  assets : mp'.assets = mp.assets
  aligned : mp'.Aligned
  holds : ∀ addr bits, mp'.holds addr bits = mp.holds addr bits +
    if bits = mp.assetbits ap then
      (if receiver = addr then quantity else 0) - (if sender = addr then quantity else 0)
    else 0

theorem moved_holds {mp : NXThandlerInfo} (h : mp.Aligned) {addr ap : Text} {i : Nat}
    (hslot : (mp.accts addr).slot mp.assetbits (mp.assetbits ap) = some i) (tp : Text)
    (quantity : BitVec 64) (a : Text) (bits : BitVec 64) :
    (mp.setAcct addr (addtoAccountTxlist (addQuantity (mp.accts addr) i quantity) i tp)).holds a bits =
      mp.holds a bits + if addr = a then (if bits = mp.assetbits ap then quantity else 0) else 0 :=
  holds_setAcct mp (by exact addQuantity_holds (h addr) hslot quantity bits) a

theorem moved_aligned {mp : NXThandlerInfo} (h : mp.Aligned) (addr tp : Text) (i : Nat)
    (quantity : BitVec 64) :
    (mp.setAcct addr (addtoAccountTxlist (addQuantity (mp.accts addr) i quantity) i tp)).Aligned :=
  h.setAcct ⟨by simp [addtoAccountTxlist, addQuantity, (h addr).length_eq], (h addr).listed⟩

/-- Both writes of a transfer, once both slots are there. -/
theorem moveBoth_spec {mp : NXThandlerInfo} (h : mp.Aligned) {ap sender receiver : Text} {i j : Nat}
    (hi : (mp.accts sender).slot mp.assetbits (mp.assetbits ap) = some i)
    (hj : (mp.accts receiver).slot mp.assetbits (mp.assetbits ap) = some j) (tp : Text)
    (quantity : BitVec 64) :
    let mp' := mp.setAcct sender
      (addtoAccountTxlist (addQuantity (mp.accts sender) i (-quantity)) i tp)
    Transferred mp (mp'.setAcct receiver
      (addtoAccountTxlist (addQuantity (mp'.accts receiver) j quantity) j tp)) ap sender receiver
      quantity := by
  intro mp'
  have hmp' : mp'.Aligned := moved_aligned h sender tp i (-quantity)
  have hslot : (mp'.accts receiver).slot mp.assetbits (mp.assetbits ap) = some j := by
    by_cases heq : receiver = sender
    · subst heq
      have : (mp'.accts receiver).assets = (mp.accts receiver).assets := by
        simp [mp', NXThandlerInfo.setAcct, addtoAccountTxlist, addQuantity]
      unfold NXTAcct.slot at hj ⊢
      rw [this, hj]
    · simpa [mp', NXThandlerInfo.setAcct, heq] using hj
  refine ⟨rfl, rfl, rfl, moved_aligned hmp' receiver tp j quantity, fun addr bits => ?_⟩
  rw [moved_holds hmp' hslot, moved_holds h hi]
  show _ + (if receiver = addr then (if bits = mp.assetbits ap then quantity else 0) else 0) = _
  split_ifs <;> ring

theorem moveQuantity_spec {mp : NXThandlerInfo} (h : mp.Aligned) (ap : Text)
    (hap : (mp.assets ap).isSome) (tp sender receiver : Text) (quantity : BitVec 64) :
    Transferred mp (moveQuantity mp ap tp sender receiver quantity) ap sender receiver quantity := by
  obtain ⟨i, src, hsrc, hsrcA, hsrcSlot, hsrcHolds⟩ :=
    getAssetInAcct_create mp.assetbits (h sender) hap
  have h2 : (mp.setAcct sender src).Aligned := h.setAcct hsrcA
  obtain ⟨j, dest, hdest, hdestA, hdestSlot, hdestHolds⟩ :=
    getAssetInAcct_create mp.assetbits (h2 receiver) hap
  have h3 : ((mp.setAcct sender src).setAcct receiver dest).Aligned := h2.setAcct hdestA
  -- the slot of the sender survives the lookup in the receiver, who may be the sender
  have hi : (((mp.setAcct sender src).setAcct receiver dest).accts sender).slot mp.assetbits
      (mp.assetbits ap) = some i := by
    by_cases heq : sender = receiver
    · subst heq
      have hsame : (mp.setAcct sender src).accts sender = src := by simp [NXThandlerInfo.setAcct]
      rw [hsame, getAssetInAcct_of_slot hsrcSlot] at hdest
      cases hdest
      simpa [NXThandlerInfo.setAcct] using hsrcSlot
    · simpa [NXThandlerInfo.setAcct, heq] using hsrcSlot
  have hj : (((mp.setAcct sender src).setAcct receiver dest).accts receiver).slot mp.assetbits
      (mp.assetbits ap) = some j := by
    simpa [NXThandlerInfo.setAcct] using hdestSlot
  have hboth := moveBoth_spec h3 hi hj tp quantity
  simp only [moveQuantity, hsrc, setAcct_assetbits, hdest]
  refine ⟨rfl, rfl, rfl, hboth.aligned, fun addr bits => ?_⟩
  rw [hboth.holds, holds_setAcct _ (δ := 0) (by simpa [NXThandlerInfo.holds] using hdestHolds bits),
    holds_setAcct _ (δ := 0) (by simpa [NXThandlerInfo.holds] using hsrcHolds bits)]
  simp

theorem holds_of_assets {mp mp' : NXThandlerInfo} (h : mp.Aligned) (haccts : mp'.accts = mp.accts)
    (hbits : ∀ a, (mp.assets a).isSome → mp'.assetbits a = mp.assetbits a) (addr : Text) (bits : BitVec 64) :
    mp'.holds addr bits = mp.holds addr bits := by
  unfold NXThandlerInfo.holds
  rw [haccts]
  exact NXTAcct.holds_congr (fun a ha => hbits a ((h addr).listed a ha)) bits

/-! ## The asset table -/

/-- The key a table uses when there is none to use. -/
def noKey : Text := "123456".toList

/-- The table after a call for `key`, whose number is `bits` if it is new. -/
structure Grown (assets assets' : Table NXTAsset) (key : Text) (bits : BitVec 64) : Prop where
  kept : ∀ k ap, assets k = some ap → ∃ ap', assets' k = some ap' ∧ ap'.assetbits = ap.assetbits
  here : (assets' key).isSome
  fresh : ∀ k ap', assets k = none → assets' k = some ap' → k = key ∧ ap'.assetbits = bits

theorem grown_add (assets : Table NXTAsset) (key : Text) (blank : NXTAsset) :
    Grown assets (assets.add 24 key blank).table (storeKey 24 key) blank.assetbits := by
  cases hkey : assets (storeKey 24 key) with
  | some ap =>
    rw [Table.add_table_of_some hkey]
    exact ⟨fun k ap h => ⟨ap, h, rfl⟩, by simp [hkey], fun k ap' h h' => by simp [h] at h'⟩
  | none =>
    rw [Table.add_table_of_none hkey]
    refine ⟨fun k ap h => ?_, by simp, fun k ap' h h' => ?_⟩
    · have hne : k ≠ storeKey 24 key := by
        rintro rfl
        simp [hkey] at h
      exact ⟨ap, by simpa [hne] using h, rfl⟩
    · by_cases hk : k = storeKey 24 key
      · simp [hk] at h'
        exact ⟨hk, by rw [← h']⟩
      · simp [hk, h] at h'

theorem Grown.modify {assets assets' : Table NXTAsset} {key : Text} {bits : BitVec 64}
    (h : Grown assets assets' key bits) {f : NXTAsset → NXTAsset}
    (hf : ∀ ap, (f ap).assetbits = ap.assetbits) (m : Text) : Grown assets (assets'.modify m f) key bits := by
  have hmod (k : Text) : (assets'.modify m f) k = if k = m then (assets' k).map f else assets' k := by
    by_cases hk : k = m
    · subst hk
      simp
    · rw [Table.modify_of_ne _ _ hk, if_neg hk]
  refine ⟨fun k ap hap => ?_, ?_, fun k ap' hnone hap' => ?_⟩
  · obtain ⟨ap', hap', hbits⟩ := h.kept k ap hap
    rw [hmod, hap']
    split
    · exact ⟨f ap', rfl, by rw [hf, hbits]⟩
    · exact ⟨ap', rfl, hbits⟩
  · rw [hmod]
    split
    · simpa using h.here
    · exact h.here
  · rw [hmod] at hap'
    split at hap'
    · obtain ⟨ap, hap, rfl⟩ := Option.map_eq_some_iff.mp hap'
      rw [hf]
      exact h.fresh k ap hnone hap
    · exact h.fresh k ap' hnone hap'

theorem Grown.isSome {assets assets' : Table NXTAsset} {key : Text} {bits : BitVec 64}
    (h : Grown assets assets' key bits) {k : Text} (hk : (assets k).isSome) : (assets' k).isSome := by
  obtain ⟨ap, hap⟩ := Option.isSome_iff_exists.mp hk
  obtain ⟨ap', hap', -⟩ := h.kept k ap hap
  simp [hap']

theorem Grown.assetbits {mp mp' : NXThandlerInfo} {key : Text} {bits : BitVec 64}
    (h : Grown mp.assets mp'.assets key bits) {k : Text} (hk : (mp.assets k).isSome) :
    mp'.assetbits k = mp.assetbits k := by
  obtain ⟨ap, hap⟩ := Option.isSome_iff_exists.mp hk
  obtain ⟨ap', hap', hbits⟩ := h.kept k ap hap
  simp [NXThandlerInfo.assetbits, hap, hap', hbits]

/-- Every asset has the number of its id, but for the one that a missing key leads to when the
asset `0` is in use. -/
structure Numbered (used : Text → Prop) (assets : Table NXTAsset) : Prop where
  bits : ∀ k ap, assets k = some ap → ¬ (k = noKey ∧ used "0".toList) → ap.assetbits = calcNxt64bits k
  zero : used "0".toList → ∀ ap, assets noKey = some ap → ap.assetbits = 0

theorem Numbered.grow {used : Text → Prop} {assets assets' : Table NXTAsset} {key : Text}
    {bits : BitVec 64} (h : Numbered used assets) (hgrow : Grown assets assets' key bits)
    (hbits : assets key = none → ¬ (key = noKey ∧ used "0".toList) → bits = calcNxt64bits key)
    (hzero : assets key = none → key = noKey → used "0".toList → bits = 0) :
    Numbered used assets' := by
  constructor
  · intro k ap' hap' hk
    cases hold : assets k with
    | some ap =>
      obtain ⟨ap'', hap'', hsame⟩ := hgrow.kept k ap hold
      cases hap'.symm.trans hap''
      rw [hsame]
      exact h.bits k ap hold hk
    | none =>
      obtain ⟨rfl, hnew⟩ := hgrow.fresh k ap' hold hap'
      rw [hnew]
      exact hbits hold hk
  · intro hused ap' hap'
    cases hold : assets noKey with
    | some ap =>
      obtain ⟨ap'', hap'', hsame⟩ := hgrow.kept noKey ap hold
      cases hap'.symm.trans hap''
      rw [hsame]
      exact h.zero hused ap hold
    | none =>
      obtain ⟨rfl, hnew⟩ := hgrow.fresh noKey ap' hold hap'
      rw [hnew]
      exact hzero hold rfl hused

/-! ## Asset ids -/

theorem CanonicalId.validKey {assetid : Text} (h : CanonicalId assetid) : ValidKey 24 assetid := by
  obtain ⟨n, hn, rfl⟩ := h
  have hlen : (Nat.toDigits 10 n).length ≤ 20 :=
    (Nat.length_toDigits_le_iff (by omega) (by omega)).mpr (by norm_num at hn ⊢; omega)
  exact ⟨Nat.toDigits_ne_nil, by omega⟩

theorem CanonicalId.storeKey_eq {assetid : Text} (h : CanonicalId assetid) : storeKey 24 assetid = assetid :=
  storeKey_of_valid h.validKey.1 h.validKey.2

/-- The key under which `transfer_asset_balance` looks an asset up again. -/
theorem CanonicalId.lookup {assetid : Text} (h : CanonicalId assetid) :
    storeKey 24 (expandNxt64bits (calcNxt64bits assetid)) = assetid ∨
      (assetid = "0".toList ∧ storeKey 24 (expandNxt64bits (calcNxt64bits assetid)) = noKey) := by
  have hstore := h.storeKey_eq
  obtain ⟨n, hn, rfl⟩ := h
  rcases Nat.eq_zero_or_pos n with rfl | hpos
  · exact .inr ⟨rfl, by decide⟩
  · left
    rwa [calcNxt64bits_toDigits hn, expandNxt64bits_ofNat (by omega) hn]

theorem CanonicalId.calc_inj {a b : Text} (ha : CanonicalId a) (hb : CanonicalId b)
    (h : calcNxt64bits a = calcNxt64bits b) : a = b := by
  obtain ⟨n, hn, rfl⟩ := ha
  obtain ⟨m, hm, rfl⟩ := hb
  rw [calcNxt64bits_toDigits hn, calcNxt64bits_toDigits hm] at h
  have := congrArg BitVec.toNat h
  rw [BitVec.toNat_ofNat, BitVec.toNat_ofNat, Nat.mod_eq_of_lt hn, Nat.mod_eq_of_lt hm] at this
  rw [this]

/-! ## One transaction -/

/-- What the booking of a new transaction does to the tables and the accounts. -/
structure Booked (used : Text → Prop) (mp mp' : NXThandlerInfo) (txid assetid : Text)
    (net : Text → BitVec 64 → BitVec 64) : Prop where
  guids : mp'.guids = mp.guids
  txids : ∀ k, (mp'.assetTxids k).isSome ↔ k = txid ∨ (mp.assetTxids k).isSome
  numbered : Numbered used mp'.assets
  assets : ∀ k, (mp.assets k).isSome → (mp'.assets k).isSome
  here : (mp'.assets assetid).isSome
  aligned : mp'.Aligned
  holds : ∀ addr bits, mp'.holds addr bits = mp.holds addr bits + net addr bits

section Booking
variable {used : Text → Prop} {mp : NXThandlerInfo} {txid assetid : Text}

theorem addNXTAssettxid_of_mem (hid : CanonicalId assetid) (hkey : ValidKey 24 txid)
    (hassets : (mp.assets assetid).isSome) (htxids : (mp.assetTxids txid).isSome) :
    addNXTAssettxid mp assetid txid = (none, mp) := by
  obtain ⟨ap, hap⟩ := Option.isSome_iff_exists.mp hassets
  obtain ⟨tp, htp⟩ := Option.isSome_iff_exists.mp htxids
  rw [← hid.storeKey_eq] at hap
  rw [← storeKey_of_valid hkey.1 hkey.2] at htp
  simp [addNXTAssettxid, Table.add_table_of_some hap, Table.add_table_of_some htp, htp]

theorem addNXTAssettxid_eq_of_new (hid : CanonicalId assetid) (hkey : ValidKey 24 txid)
    (hnew : mp.assetTxids txid = none) :
    addNXTAssettxid mp assetid txid = (some txid, { mp with
      assets := (mp.assets.add 24 assetid { assetbits := calcNxt64bits assetid }).table.modify assetid
        fun a => { a with txids := a.txids ++ [txid] }
      assetTxids := Function.update mp.assetTxids txid
        (some { assetbits := calcNxt64bits assetid, txidbits := calcNxt64bits txid }) }) := by
  have hstore := storeKey_of_valid hkey.1 hkey.2
  have hnone : mp.assetTxids (storeKey 24 txid) = none := by rwa [hstore]
  unfold addNXTAssettxid
  simp only [Table.add_table_of_none hnone, Table.add_created, Table.add_key, hstore, hid.storeKey_eq, hnew,
    Option.isNone_none, if_true]

theorem grown_addNXTAssettxid (assets : Table NXTAsset) (hid : CanonicalId assetid) (txid : Text) :
    Grown assets ((assets.add 24 assetid { assetbits := calcNxt64bits assetid }).table.modify assetid
      fun a => { a with txids := a.txids ++ [txid] }) assetid (calcNxt64bits assetid) := by
  have hgrow := (grown_add assets assetid { assetbits := calcNxt64bits assetid }).modify
    (f := fun a => { a with txids := a.txids ++ [txid] }) (fun _ => rfl) assetid
  rwa [hid.storeKey_eq] at hgrow

/-- A new txid is entered under its asset. -/
theorem addNXTAssettxid_of_new (hnum : Numbered used mp.assets) (halign : mp.Aligned)
    (hid : CanonicalId assetid) (hused : used assetid) (hapart : ¬ (used "0".toList ∧ used noKey))
    (hkey : ValidKey 24 txid) (hnew : mp.assetTxids txid = none) :
    ∃ mp', addNXTAssettxid mp assetid txid = (some txid, mp') ∧
      Booked used mp mp' txid assetid fun _ _ => 0 := by
  have hgrow := grown_addNXTAssettxid mp.assets hid txid
  refine ⟨_, addNXTAssettxid_eq_of_new hid hkey hnew, rfl, fun k => ?_, ?_, fun k hk => hgrow.isSome hk, hgrow.here,
    ?_, ?_⟩
  · by_cases hk : k = txid <;> simp [hk]
  · refine hnum.grow hgrow (fun _ _ => rfl) fun _ heq hzero => ?_
    exact absurd ⟨hzero, heq ▸ hused⟩ hapart
  · exact fun addr => (halign addr).mono fun a ha => hgrow.isSome ha
  · intro addr bits
    rw [add_zero]
    refine holds_of_assets halign ?_ (fun a ha => ?_) addr bits
    · rfl
    · exact Grown.assetbits (by exact hgrow) ha

/-- The asset found by the number of a known one has that number. -/
theorem Numbered.lookup {assets : Table NXTAsset} (hnum : Numbered used assets) (hid : CanonicalId assetid)
    (hused : used assetid) (hapart : ¬ (used "0".toList ∧ used noKey)) (hhere : (assets assetid).isSome) :
    let found := assets.add 24 (expandNxt64bits (calcNxt64bits assetid)) {}
    Numbered used found.table ∧ ∃ ap, found.table found.key = some ap ∧ ap.assetbits = calcNxt64bits assetid := by
  intro found
  have hgrow := grown_add assets (expandNxt64bits (calcNxt64bits assetid)) {}
  have hnumbered : Numbered used found.table := by
    refine hnum.grow hgrow (fun hnone hkey => ?_) fun _ _ _ => rfl
    rcases hid.lookup with hsame | ⟨hzero, hno⟩
    · rw [hsame] at hnone
      simp [hnone] at hhere
    · exact absurd ⟨hno, hzero ▸ hused⟩ hkey
  obtain ⟨ap, hap⟩ := Option.isSome_iff_exists.mp hgrow.here
  refine ⟨hnumbered, ap, hap, ?_⟩
  rcases hid.lookup with hsame | ⟨hzero, hno⟩
  · rw [hsame] at hap
    exact hnumbered.bits assetid ap hap fun ⟨hno, hz⟩ => hapart ⟨hz, hno ▸ hused⟩
  · rw [hno] at hap
    rw [hnumbered.zero (hzero ▸ hused) ap hap, hzero]
    rfl

/-- A transfer of a known asset moves its quantity under the number of the asset. -/
theorem transferAssetBalance_spec (mp : NXThandlerInfo) (hnum : Numbered used mp.assets) (halign : mp.Aligned)
    (hid : CanonicalId assetid) (hused : used assetid) (hapart : ¬ (used "0".toList ∧ used noKey))
    (hhere : (mp.assets assetid).isSome) (tp : Text) {sender receiver : Text} (hsender : sender ≠ [])
    (hreceiver : receiver ≠ []) (quantity : BitVec 64) {mp' : NXThandlerInfo}
    (hmp' : mp' = transferAssetBalance mp tp (calcNxt64bits assetid) sender receiver quantity) :
    mp'.guids = mp.guids ∧ mp'.assetTxids = mp.assetTxids ∧ Numbered used mp'.assets ∧
      (∀ k, (mp.assets k).isSome → (mp'.assets k).isSome) ∧ mp'.Aligned ∧
      ∀ addr bits, mp'.holds addr bits = mp.holds addr bits +
        if bits = calcNxt64bits assetid then
          (if receiver = addr then quantity else 0) - (if sender = addr then quantity else 0)
        else 0 := by
  have hgrow := grown_add mp.assets (expandNxt64bits (calcNxt64bits assetid)) {}
  let found := mp.assets.add 24 (expandNxt64bits (calcNxt64bits assetid)) {}
  let mp₁ : NXThandlerInfo := { mp with assets := found.table }
  have halign₁ : mp₁.Aligned := fun addr => (halign addr).mono fun a ha => hgrow.isSome ha
  have hholds (addr : Text) (bits : BitVec 64) : mp₁.holds addr bits = mp.holds addr bits := by
    refine holds_of_assets halign ?_ (fun a ha => ?_) addr bits
    · rfl
    · exact Grown.assetbits (by exact hgrow) ha
  obtain ⟨hnum₁, ap, hap, hapbits⟩ := hnum.lookup hid hused hapart hhere
  have hbits : mp₁.assetbits found.key = calcNxt64bits assetid := by
    show (match found.table found.key with | none => 0 | some ap => ap.assetbits) = _
    rw [show found.table found.key = some ap from hap]
    exact hapbits
  have hmove := moveQuantity_spec halign₁ found.key hgrow.here tp sender receiver quantity
  have heq : mp' = moveQuantity mp₁ found.key tp sender receiver quantity := by
    rw [hmp', transferAssetBalance, if_neg (by simp [hsender, hreceiver])]
  rw [heq]
  refine ⟨hmove.guids, hmove.assetTxids, ?_, fun k hk => ?_, hmove.aligned, fun addr bits => ?_⟩
  · rw [hmove.assets]
    exact hnum₁
  · rw [hmove.assets]
    exact hgrow.isSome hk
  · rw [hmove.holds, hbits, hholds]

/-- What a transaction moves under an asset number. -/
def NXTtransaction.net (tx : NXTtransaction) (addr : Text) (bits : BitVec 64) : BitVec 64 :=
  match tx.movement with
  | none => 0
  | some m => m.net (bits == calcNxt64bits m.assetid) addr

theorem Booked.transfer {mp₁ mp₂ : NXThandlerInfo} {net : Text → BitVec 64 → BitVec 64}
    (h : Booked used mp mp₁ txid assetid fun _ _ => 0) (hguids : mp₂.guids = mp₁.guids)
    (htxids : ∀ k, (mp₂.assetTxids k).isSome ↔ (mp₁.assetTxids k).isSome)
    (hnum : Numbered used mp₂.assets) (hassets : ∀ k, (mp₁.assets k).isSome → (mp₂.assets k).isSome)
    (halign : mp₂.Aligned) (hholds : ∀ addr bits, mp₂.holds addr bits = mp₁.holds addr bits + net addr bits) :
    Booked used mp mp₂ txid assetid net where
  guids := hguids.trans h.guids
  txids k := (htxids k).trans (h.txids k)
  numbered := hnum
  assets k hk := hassets k (h.assets k hk)
  here := hassets assetid h.here
  aligned := halign
  holds addr bits := by rw [hholds, h.holds, add_zero]

/-- **The asset branch, once the transaction is entered**: it transfers what the transaction moves. -/
theorem processAsset_eq {mp₁ : NXThandlerInfo} {tx : NXTtransaction} {a : AssetAttachment} (ha : tx.asset = some a)
    (hadd : addNXTAssettxid mp a.assetid txid = (some txid, mp₁))
    (hagain : addNXTAssettxid mp₁ a.assetid txid = (none, mp₁)) :
    ∃ txids : Table NXTAssettxid, (∀ k, (txids k).isSome = (mp₁.assetTxids k).isSome) ∧
      processAsset mp txid tx a =
        match tx.movement with
        | none => { mp₁ with assetTxids := txids }
        | some m => transferAssetBalance { mp₁ with assetTxids := txids } txid (calcNxt64bits a.assetid) m.sender
            m.receiver m.quantity := by
  unfold processAsset
  simp only [hadd, hagain]
  by_cases htype : tx.type = 2
  · rw [if_pos htype]
    by_cases hissue : tx.subtype = 0
    · rw [if_pos hissue]
      by_cases hgenesis : tx.receiver = genesisAcct
      · have hm : tx.movement = some ⟨a.assetid, genesisAcct, tx.sender, BitVec.ofInt 64 a.quantityQNT⟩ := by
          simp [NXTtransaction.movement, ha, htype, hissue, hgenesis]
        rw [if_pos hgenesis, hm]
        exact ⟨_, fun k => by simp only [Table.isSome_modify], rfl⟩
      · have hm : tx.movement = none := by simp [NXTtransaction.movement, ha, hissue, hgenesis]
        rw [if_neg hgenesis, hm]
        exact ⟨_, fun k => by simp only [Table.isSome_modify], rfl⟩
    · rw [if_neg hissue]
      by_cases htrade : tx.subtype = 1
      · have hm : tx.movement = some ⟨a.assetid, tx.sender, tx.receiver, BitVec.ofInt 64 a.quantityQNT⟩ := by
          simp [NXTtransaction.movement, ha, htype, htrade]
        rw [if_pos htrade, hm]
        exact ⟨_, fun k => by simp only [Table.isSome_modify], rfl⟩
      · have hm : tx.movement = none := by simp [NXTtransaction.movement, ha, hissue, htrade]
        rw [if_neg htrade, hm]
        exact ⟨_, fun k => by simp only [Table.isSome_modify], rfl⟩
  · have hm : tx.movement = none := by simp [NXTtransaction.movement, ha, htype]
    rw [if_neg htype, hm]
    exact ⟨mp₁.assetTxids, fun _ => rfl, rfl⟩

theorem assetid_of_movement {tx : NXTtransaction} {a : AssetAttachment} (ha : tx.asset = some a) {m : Movement}
    (hm : tx.movement = some m) : m.assetid = a.assetid := by
  unfold NXTtransaction.movement at hm
  rw [ha] at hm
  dsimp only at hm
  split_ifs at hm <;> cases hm <;> rfl

theorem asset_of_movement {tx : NXTtransaction} {m : Movement} (hm : tx.movement = some m) :
    ∃ a, tx.asset = some a ∧ a.assetid = m.assetid := by
  cases ha : tx.asset with
  | none =>
    rw [NXTtransaction.movement, ha] at hm
    cases hm
  | some a => exact ⟨a, rfl, (assetid_of_movement ha hm).symm⟩

/-- **The asset branch books a new transaction once**, under the number of its asset. -/
theorem processAsset_of_new (mp : NXThandlerInfo) (hnum : Numbered used mp.assets) (halign : mp.Aligned)
    (hid : CanonicalId assetid) (hused : used assetid) (hapart : ¬ (used "0".toList ∧ used noKey))
    (hkey : ValidKey 24 txid) (hnew : mp.assetTxids txid = none) {tx : NXTtransaction}
    {a : AssetAttachment} (ha : tx.asset = some a) (haid : a.assetid = assetid)
    (hnamed : ∀ m, tx.movement = some m → m.sender ≠ [] ∧ m.receiver ≠ []) :
    Booked used mp (processAsset mp txid tx a) txid assetid tx.net := by
  subst haid
  obtain ⟨mp₁, hadd, hbooked⟩ := addNXTAssettxid_of_new hnum halign hid hused hapart hkey hnew
  have hagain : addNXTAssettxid mp₁ a.assetid txid = (none, mp₁) :=
    addNXTAssettxid_of_mem hid hkey hbooked.here ((hbooked.txids txid).mpr (.inl rfl))
  obtain ⟨txids, hsome, heq⟩ := processAsset_eq ha hadd hagain
  rw [heq]
  cases hm : tx.movement with
  | none =>
    refine hbooked.transfer rfl (fun k => by rw [hsome]) hbooked.numbered (fun _ hk => hk)
      hbooked.aligned fun addr bits => ?_
    rw [NXTtransaction.net, hm, add_zero]
    rfl
  | some m =>
    obtain ⟨hsender, hreceiver⟩ := hnamed m hm
    obtain ⟨hguids, htxids, hnum', hassets, halign', hholds⟩ :=
      transferAssetBalance_spec { mp₁ with assetTxids := txids } hbooked.numbered hbooked.aligned
        hid hused hapart hbooked.here txid hsender hreceiver m.quantity rfl
    refine hbooked.transfer hguids (fun k => by rw [htxids, hsome]) hnum' hassets halign'
      fun addr bits => ?_
    rw [hholds, NXTtransaction.net, hm]
    simp only [Movement.net, beq_iff_eq, assetid_of_movement ha hm]
    rfl

end Booking

/-! ## Runs -/

/-- The asset part that is booked. -/
def NXTtransaction.attached (tx : NXTtransaction) : Option AssetAttachment :=
  match tx.message with
  | none => tx.asset
  | some _ => none

/-- The books after some calls have processed the transactions `done`. -/
structure Books (chain : Text → NXTtransaction) (calls : List Call) (done : Finset Text)
    (mp : NXThandlerInfo) : Prop where
  guids : ∀ h, ValidKey 88 h → ((mp.guids h).isSome ↔ ∃ t ∈ done, (chain t).hash = some h)
  txids : ∀ t ∈ processed calls, ((mp.assetTxids t).isSome ↔ t ∈ done ∧ (chain t).attached ≠ none)
  assets : ∀ t ∈ done, ∀ a, (chain t).attached = some a → (mp.assets a.assetid).isSome
  numbered : Numbered (Uses chain calls) mp.assets
  aligned : mp.Aligned
  holds : ∀ addr bits, mp.holds addr bits = ∑ t ∈ done, (chain t).net addr bits

section Runs
variable {chain : Text → NXTtransaction} {calls : List Call}

theorem books_empty : Books chain calls ∅ {} where
  guids h _ := by simp [Table.empty]
  txids t _ := by simp [Table.empty]
  assets := by simp
  numbered := ⟨fun k ap h => by simp [Table.empty] at h, fun _ ap h => by simp [Table.empty] at h⟩
  aligned addr := ⟨rfl, by simp⟩
  holds addr bits := by simp [NXThandlerInfo.holds, NXTAcct.holds, NXTAcct.slot]

theorem asset_of_attached {tx : NXTtransaction} {a : AssetAttachment} (h : tx.attached = some a) :
    tx.message = none ∧ tx.asset = some a := by
  unfold NXTtransaction.attached at h
  split at h
  · next hm => exact ⟨hm, h⟩
  · cases h

theorem net_of_attached_none {tx : NXTtransaction} (hsilent : tx.movement ≠ none → tx.message = none)
    (h : tx.attached = none) (addr : Text) (bits : BitVec 64) : tx.net addr bits = 0 := by
  have hmove : tx.movement = none := by
    by_contra hne
    unfold NXTtransaction.attached at h
    rw [hsilent hne] at h
    exact hne (by simp [NXTtransaction.movement, show tx.asset = none from h])
  rw [NXTtransaction.net, hmove]

/-- The calls after the test of the hash. -/
theorem processNXTtransaction_eq (mp : NXThandlerInfo) (txid : Text) (json : Json) {tx : NXTtransaction}
    (htx : readTransaction json = tx) :
    processNXTtransaction mp txid (some json) =
      match tx.hash with
      | none => match tx.attached with
        | none => mp
        | some a => processAsset mp txid tx a
      | some hash =>
        let gp := mp.guids.add 88 hash { txid := txid }
        if gp.created then
          match tx.attached with
          | none => { mp with guids := gp.table }
          | some a => processAsset { mp with guids := gp.table } txid tx a
        else { mp with guids := gp.table } := by
  subst htx
  have hattached (m : NXThandlerInfo) : (match (readTransaction json).message, (readTransaction json).asset with
      | none, some a => processAsset m txid (readTransaction json) a
      | _, _ => m) = match (readTransaction json).attached with
      | none => m
      | some a => processAsset m txid (readTransaction json) a := by
    unfold NXTtransaction.attached
    cases (readTransaction json).message <;> cases (readTransaction json).asset <;> rfl
  unfold processNXTtransaction
  cases hhash : (readTransaction json).hash with
  | none => simp [hhash, hattached]
  | some hash =>
    simp only [hhash, hattached]
    cases (mp.guids.add 88 hash { txid := txid }).created <;> rfl

theorem Identified.id_canonical (h : Identified chain calls) {t : Text} (ht : t ∈ processed calls)
    {a : AssetAttachment} (ha : (chain t).attached = some a) :
    CanonicalId a.assetid ∧ Uses chain calls a.assetid :=
  have huse : Uses chain calls a.assetid := ⟨t, ht, a, (asset_of_attached ha).2, rfl⟩
  ⟨h.canonical _ huse, huse⟩

variable {done : Finset Text} {mp : NXThandlerInfo} {t : Text} {json : Json}

/-- What is known of the tables that keep a transaction from being booked twice, once `done` are processed. -/
structure Guarded (chain : Text → NXTtransaction) (calls : List Call) (done : Finset Text) (mp : NXThandlerInfo) :
    Prop where
  guids : ∀ h, ValidKey 88 h → ((mp.guids h).isSome ↔ ∃ t ∈ done, (chain t).hash = some h)
  txids : ∀ t ∈ processed calls, ((mp.assetTxids t).isSome ↔ t ∈ done ∧ (chain t).attached ≠ none)
  assets : ∀ t ∈ done, ∀ a, (chain t).attached = some a → (mp.assets a.assetid).isSome

theorem Books.guarded (hb : Books chain calls done mp) : Guarded chain calls done mp := ⟨hb.guids, hb.txids, hb.assets⟩

/-- A transaction that is processed again changes nothing. -/
theorem Guarded.again (hb : Guarded chain calls done mp) (h : Identified chain calls) (ht : t ∈ processed calls)
    (hdone : t ∈ done) (hread : readTransaction json = chain t) :
    processNXTtransaction mp t (some json) = mp := by
  rw [processNXTtransaction_eq mp t json hread]
  cases hhash : (chain t).hash with
  | some hash =>
    obtain ⟨hne, hlen⟩ := h.hashes t ht hash hhash
    obtain ⟨gp, hgp⟩ := Option.isSome_iff_exists.mp ((hb.guids hash ⟨hne, hlen⟩).mpr ⟨t, hdone, hhash⟩)
    rw [← storeKey_of_valid hne hlen] at hgp
    simp [hgp, Table.add_table_of_some hgp]
  | none =>
    cases ha : (chain t).attached with
    | none => rfl
    | some a =>
      have htxids := (hb.txids t ht).mpr ⟨hdone, by simp [ha]⟩
      have hadd :=
        addNXTAssettxid_of_mem (h.id_canonical ht ha).1 (h.txids t ht) (hb.assets t hdone a ha) htxids
      simp [processAsset, hadd]

/-- A transaction that is new is handed on with its hash. -/
theorem Guarded.fresh (hb : Guarded chain calls done mp) (h : Identified chain calls)
    (hsub : done ⊆ processed calls) (ht : t ∈ processed calls) (hnew : t ∉ done)
    (hread : readTransaction json = chain t) :
    ∃ guids : Table NXTGuid,
      (∀ hash, ValidKey 88 hash → ((guids hash).isSome ↔ ∃ t' ∈ insert t done, (chain t').hash = some hash)) ∧
      processNXTtransaction mp t (some json) =
        match (chain t).attached with
        | none => { mp with guids := guids }
        | some a => processAsset { mp with guids := guids } t (chain t) a := by
  rw [processNXTtransaction_eq mp t json hread]
  cases hhash : (chain t).hash with
  | none =>
    refine ⟨mp.guids, fun hash hvalid => ?_, rfl⟩
    rw [hb.guids hash hvalid]
    simp [hhash]
  | some hash =>
    obtain ⟨hne, hlen⟩ := h.hashes t ht hash hhash
    have hstore := storeKey_of_valid hne hlen
    have hnone : mp.guids hash = none := by
      rw [← Option.not_isSome_iff_eq_none, hb.guids hash ⟨hne, hlen⟩]
      rintro ⟨t', ht', hsame⟩
      exact hnew (h.hash_inj t' (hsub ht') t ht hash hsame hhash ▸ ht')
    refine ⟨(mp.guids.add 88 hash { txid := t }).table, fun hash' hvalid => ?_, by simp [hstore, hnone]⟩
    rw [Table.add_table_of_none (by rwa [hstore]), hstore]
    by_cases heq : hash' = hash
    · subst heq
      simp [hhash]
    · have hother : ¬ hash = hash' := fun hsame => heq hsame.symm
      simp [heq, hhash, hother, hb.guids hash' hvalid]

/-- The books with a new hash and then a new transaction. -/
theorem Books.book (hb : Books chain calls done mp) (h : Regular chain calls) (ht : t ∈ processed calls)
    (hnew : t ∉ done) {guids : Table NXTGuid}
    (hguids : ∀ hash, ValidKey 88 hash →
      ((guids hash).isSome ↔ ∃ t' ∈ insert t done, (chain t').hash = some hash)) :
    Books chain calls (insert t done) (match (chain t).attached with
      | none => { mp with guids := guids }
      | some a => processAsset { mp with guids := guids } t (chain t) a) := by
  have hnone : mp.assetTxids t = none := by
    rw [← Option.not_isSome_iff_eq_none, hb.txids t ht]
    exact fun hm => hnew hm.1
  have htxids (hp : Prop) (hiff : (chain t).attached ≠ none ↔ hp) {t' : Text} (ht' : t' ∈ processed calls) :
      (t' = t ∧ hp ∨ (mp.assetTxids t').isSome) ↔ t' ∈ insert t done ∧ (chain t').attached ≠ none := by
    rw [hb.txids t' ht', Finset.mem_insert, ← hiff]
    by_cases heq : t' = t
    · subst heq
      simp [hnew]
    · simp [heq]
  cases ha : (chain t).attached with
  | none =>
    refine ⟨hguids, fun t' ht' => ?_, fun t' ht' a' ha' => ?_, hb.numbered, hb.aligned, fun addr bits => ?_⟩
    · rw [← htxids False (by simp [ha]) ht']
      simp
    · rcases Finset.mem_insert.mp ht' with rfl | ht'
      · rw [ha] at ha'
        cases ha'
      · exact hb.assets t' ht' a' ha'
    · rw [Finset.sum_insert hnew, net_of_attached_none (h.silent t ht) ha, zero_add]
      exact hb.holds addr bits
  | some a =>
    obtain ⟨hcanon, huse⟩ := h.id_canonical ht ha
    have hbooked : Booked (Uses chain calls) { mp with guids := guids }
        (processAsset { mp with guids := guids } t (chain t) a) t a.assetid (chain t).net :=
      processAsset_of_new { mp with guids := guids } hb.numbered hb.aligned hcanon huse h.apart (h.txids t ht) hnone
        (asset_of_attached ha).2 rfl (h.named t ht)
    refine ⟨?_, fun t' ht' => ?_, fun t' ht' a' ha' => ?_, hbooked.numbered, hbooked.aligned,
      fun addr bits => ?_⟩
    · rw [hbooked.guids]
      exact hguids
    · rw [hbooked.txids, ← htxids True (by simp [ha]) ht', and_true]
    · rcases Finset.mem_insert.mp ht' with rfl | ht'
      · rw [ha] at ha'
        cases ha'
        exact hbooked.here
      · exact hbooked.assets _ (hb.assets t' ht' a' ha')
    · rw [hbooked.holds, Finset.sum_insert hnew, add_comm]
      congr 1
      exact hb.holds addr bits

theorem Books.fresh (hb : Books chain calls done mp) (h : Regular chain calls)
    (hsub : done ⊆ processed calls) (ht : t ∈ processed calls) (hnew : t ∉ done)
    (hread : readTransaction json = chain t) :
    Books chain calls (insert t done) (processNXTtransaction mp t (some json)) := by
  obtain ⟨guids, hguids, heq⟩ := hb.guarded.fresh h.toIdentified hsub ht hnew hread
  rw [heq]
  exact hb.book h ht hnew hguids

theorem mem_processed {c : Call} (hc : c ∈ calls) (hj : c.response = some json) :
    c.txid ∈ processed calls := by
  simp only [processed, List.mem_toFinset, List.mem_map, List.mem_filter]
  exact ⟨c, ⟨hc, by simp [hj]⟩, rfl⟩

theorem processed_subset {p : List Call} (hp : p <+: calls) : processed p ⊆ processed calls := by
  intro t ht
  simp only [processed, List.mem_toFinset, List.mem_map, List.mem_filter] at ht ⊢
  obtain ⟨c, ⟨hc, hsome⟩, rfl⟩ := ht
  exact ⟨c, ⟨hp.subset hc, hsome⟩, rfl⟩

theorem processed_concat_none {p : List Call} {c : Call} (hj : c.response = none) :
    processed (p ++ [c]) = processed p := by
  simp [processed, hj]

theorem processed_concat_some {p : List Call} {c : Call} (hj : c.response = some json) :
    processed (p ++ [c]) = insert c.txid (processed p) := by
  ext t
  simp [processed, hj]

/-- The books after the first calls of a run. -/
theorem books_run (h : Regular chain calls) {p : List Call} (hp : p <+: calls) :
    Books chain calls (processed p) (run p) := by
  induction p using List.reverseRecOn with
  | nil => exact books_empty
  | append_singleton p c ih =>
    have hb := ih ((List.prefix_append p [c]).trans hp)
    have hc : c ∈ calls := hp.subset (by simp)
    have hrun : run (p ++ [c]) = processNXTtransaction (run p) c.txid c.response := by simp [run]
    rw [hrun]
    cases hj : c.response with
    | none =>
      rw [processed_concat_none hj]
      exact hb
    | some json =>
      have hread := h.answers c hc json hj
      rw [processed_concat_some hj]
      by_cases hdone : c.txid ∈ processed p
      · rw [Finset.insert_eq_of_mem hdone, hb.guarded.again h.toIdentified (mem_processed hc hj) hdone hread]
        exact hb
      · exact hb.fresh h (processed_subset ((List.prefix_append p [c]).trans hp)) (mem_processed hc hj) hdone hread

theorem held_eq_holds {addr assetid : Text} (h : (mp.assets assetid).isSome) :
    held mp addr assetid = mp.holds addr (mp.assetbits assetid) := by
  unfold held
  rw [if_pos h]
  unfold getAssetInAcct NXThandlerInfo.holds NXTAcct.holds NXTAcct.slot
  cases (mp.accts addr).assets.findIdx? fun a => mp.assetbits a == mp.assetbits assetid <;> rfl

theorem Regular.attached_of_movement (h : Regular chain calls) (ht : t ∈ processed calls) {m : Movement}
    (hm : (chain t).movement = some m) : ∃ a, (chain t).attached = some a ∧ a.assetid = m.assetid := by
  rw [NXTtransaction.attached, h.silent t ht (by simp [hm])]
  exact asset_of_movement hm

theorem Regular.net_eq_flow (h : Regular chain calls) (ht : t ∈ processed calls) {assetid : Text}
    (hid : CanonicalId assetid) (addr : Text) :
    (chain t).net addr (calcNxt64bits assetid) = (chain t).flow addr assetid := by
  unfold NXTtransaction.net NXTtransaction.flow
  cases hm : (chain t).movement with
  | none => rfl
  | some m =>
    obtain ⟨a, ha, haid⟩ := h.attached_of_movement ht hm
    have hcanon := haid ▸ (h.id_canonical ht ha).1
    have hsame : (calcNxt64bits assetid == calcNxt64bits m.assetid) = (m.assetid == assetid) := by
      rw [Bool.eq_iff_iff, beq_iff_eq, beq_iff_eq]
      exact ⟨fun heq => hcanon.calc_inj hid heq.symm, fun heq => by rw [heq]⟩
    dsimp only
    rw [hsame]

theorem Regular.held_eq (h : Regular chain calls) {assetid : Text} (huse : Uses chain calls assetid)
    (addr : Text) :
    held (run calls) addr assetid = ∑ t ∈ processed calls, (chain t).flow addr assetid := by
  have hb := books_run h List.prefix_rfl
  have hid := h.canonical assetid huse
  by_cases hmem : ((run calls).assets assetid).isSome
  · obtain ⟨ap, hap⟩ := Option.isSome_iff_exists.mp hmem
    have hbits : (run calls).assetbits assetid = calcNxt64bits assetid := by
      unfold NXThandlerInfo.assetbits
      rw [hap]
      exact hb.numbered.bits assetid ap hap fun ⟨hno, hzero⟩ => h.apart
        ⟨hzero, hno.subst (motive := Uses chain calls) huse⟩
    rw [held_eq_holds hmem, hbits, hb.holds]
    exact Finset.sum_congr rfl fun t ht => h.net_eq_flow ht hid addr
  · rw [held, if_neg hmem]
    refine (Finset.sum_eq_zero fun t ht => ?_).symm
    unfold NXTtransaction.flow
    cases hm : (chain t).movement with
    | none => rfl
    | some m =>
      obtain ⟨a, ha, haid⟩ := h.attached_of_movement ht hm
      have hne : m.assetid ≠ assetid := by
        rintro rfl
        exact hmem (haid ▸ hb.assets t ht a ha)
      simp [Movement.net, hne]

theorem sum_net (m : Movement) (same : Bool) {S : Finset Text} (hs : m.sender ∈ S) (hr : m.receiver ∈ S) :
    ∑ addr ∈ S, m.net same addr = 0 := by
  unfold Movement.net
  cases same with
  | false => exact Finset.sum_const_zero
  | true =>
    simp only [if_true]
    rw [Finset.sum_sub_distrib, Finset.sum_ite_eq, Finset.sum_ite_eq, if_pos hs, if_pos hr, sub_self]

/-- **The ledger is a function of the set of processed transactions**: an account holds what it
received less what it sent, the quantities of one asset cancel over the accounts, and neither order
nor repetition matters. -/
theorem held_eq_sum (h : Regular chain calls) :
    (∀ addr assetid, Uses chain calls assetid →
      held (run calls) addr assetid = ∑ t ∈ processed calls, (chain t).flow addr assetid) ∧
    (∀ assetid, Uses chain calls assetid → ∀ S : Finset Text,
      (∀ t ∈ processed calls, ∀ m, (chain t).movement = some m → m.sender ∈ S ∧ m.receiver ∈ S) →
      ∑ addr ∈ S, held (run calls) addr assetid = 0) ∧
    ∀ calls', Regular chain calls' → processed calls' = processed calls →
      ∀ addr assetid, Uses chain calls assetid →
        held (run calls') addr assetid = held (run calls) addr assetid := by
  refine ⟨fun addr assetid huse => h.held_eq huse addr, fun assetid huse S hS => ?_,
    fun calls' h' hsame addr assetid huse => ?_⟩
  · simp only [h.held_eq huse]
    rw [Finset.sum_comm]
    apply Finset.sum_eq_zero
    intro t ht
    unfold NXTtransaction.flow
    cases hm : (chain t).movement with
    | none => simp
    | some m => exact sum_net m _ (hS t ht m hm).1 (hS t ht m hm).2
  · have huse' : Uses chain calls' assetid := by
      unfold Uses
      rwa [hsame]
    rw [h.held_eq huse, h'.held_eq huse', hsame]

end Runs

/-! ## Small runs -/

/-- An answer to `getTransaction` about an asset. -/
def answer (hash subtype sender recipient : String) (attachment : List (Text × Json)) : Json :=
  .object [("hash".toList, .string hash.toList), ("type".toList, .number "2".toList),
    ("subtype".toList, .number subtype.toList), ("sender".toList, .string sender.toList),
    ("recipient".toList, .string recipient.toList), ("attachment".toList, .object attachment)]

/-- The attachment of an asset transaction. -/
def attachment (assetid quantityQNT : String) : List (Text × Json) :=
  [("asset".toList, .string assetid.toList), ("quantityQNT".toList, .string quantityQNT.toList)]

/-- The transaction an answer without message is read as. -/
def plain (hash : String) (subtype : Int) (sender receiver assetid : String) (quantity : Int) :
    NXTtransaction :=
  { hash := some hash.toList, type := 2, subtype := subtype, sender := sender.toList
    receiver := receiver.toList, message := none, asset := some ⟨assetid.toList, [], quantity⟩ }

/-- Two transactions on a chain. -/
def chainOf (first second : NXTtransaction) (t : Text) : NXTtransaction :=
  if t = "1".toList then first else second

theorem movement_named {tx : NXTtransaction} (h : tx.sender ≠ [] ∧ tx.receiver ≠ []) {m : Movement}
    (hm : tx.movement = some m) : m.sender ≠ [] ∧ m.receiver ≠ [] := by
  unfold NXTtransaction.movement at hm
  split at hm
  · cases hm
  · split at hm
    · obtain rfl := Option.some.inj hm
      show genesisAcct ≠ [] ∧ tx.sender ≠ []
      exact ⟨by decide, h.1⟩
    · split at hm
      · obtain rfl := Option.some.inj hm
        exact h
      · cases hm

/-- What makes a run over two transactions identified. -/
theorem identified_of_two {first second : NXTtransaction} {calls : List Call}
    (hanswers : ∀ c ∈ calls, ∀ json, c.response = some json →
      readTransaction json = chainOf first second c.txid)
    (hset : processed calls = {"1".toList, "2".toList})
    (hfirst : first.hash = some "aa".toList) (hsecond : second.hash = some "bb".toList)
    {a b : AssetAttachment} (ha : first.asset = some a) (hb : second.asset = some b)
    (hacanon : CanonicalId a.assetid) (hbcanon : CanonicalId b.assetid)
    (hanamed : first.sender ≠ [] ∧ first.receiver ≠ []) (hbnamed : second.sender ≠ [] ∧ second.receiver ≠ []) :
    Identified (chainOf first second) calls := by
  have h1 : chainOf first second "1".toList = first := rfl
  have h2 : chainOf first second "2".toList = second := rfl
  have hmem {t : Text} (ht : t ∈ processed calls) : t = "1".toList ∨ t = "2".toList := by
    rw [hset] at ht
    simpa using ht
  refine ⟨hanswers, fun t ht => ?_, fun t ht h hh => ?_, fun t ht t' ht' h hh hh' => ?_,
    fun assetid huse => ?_, fun t ht m hm => ?_⟩
  · rcases hmem ht with rfl | rfl <;> decide
  · rcases hmem ht with rfl | rfl
    · rw [h1, hfirst] at hh
      cases hh
      decide
    · rw [h2, hsecond] at hh
      cases hh
      decide
  · rcases hmem ht with rfl | rfl <;> rcases hmem ht' with rfl | rfl
    · rfl
    · rw [h1, hfirst] at hh
      rw [h2, hsecond, ← hh] at hh'
      exact absurd hh' (by decide)
    · rw [h2, hsecond] at hh
      rw [h1, hfirst, ← hh] at hh'
      exact absurd hh' (by decide)
    · rfl
  · obtain ⟨t, ht, x, hx, rfl⟩ := huse
    rcases hmem ht with rfl | rfl
    · rw [h1, ha] at hx
      cases hx
      exact hacanon
    · rw [h2, hb] at hx
      cases hx
      exact hbcanon
  · rcases hmem ht with rfl | rfl
    · exact movement_named hanamed (h1 ▸ hm)
    · exact movement_named hbnamed (h2 ▸ hm)

/-- An issue and a transfer of the same asset, fed in with a repetition. -/
theorem held_eq_sum_issue_transfer :
    let first := plain "aa" 0 "5" "1739068987193023818" "999" 100
    let second := plain "bb" 1 "5" "6" "999" 40
    let calls : List Call :=
      [⟨"2".toList, some (answer "bb" "1" "5" "6" (attachment "999" "40"))⟩,
        ⟨"1".toList, some (answer "aa" "0" "5" "1739068987193023818" (attachment "999" "100"))⟩,
        ⟨"2".toList, some (answer "bb" "1" "5" "6" (attachment "999" "40"))⟩]
    Regular (chainOf first second) calls ∧ held (run calls) "5".toList "999".toList = 60 := by
  intro first second calls
  have hfirst : readTransaction (answer "aa" "0" "5" "1739068987193023818" (attachment "999" "100")) =
      first := by decide +kernel
  have hsecond : readTransaction (answer "bb" "1" "5" "6" (attachment "999" "40")) = second := by
    decide +kernel
  have hset : processed calls = {"1".toList, "2".toList} := by decide +kernel
  have hid : CanonicalId "999".toList := ⟨999, by decide, by decide⟩
  have hident : Identified (chainOf first second) calls := by
    refine identified_of_two (fun c hc json hj => ?_) hset rfl rfl rfl rfl hid hid ⟨by decide, by decide⟩
      ⟨by decide, by decide⟩
    simp only [calls, List.mem_cons, List.not_mem_nil, or_false] at hc
    rcases hc with rfl | rfl | rfl <;> cases hj
    · exact hsecond
    · exact hfirst
    · exact hsecond
  have hreg : Regular (chainOf first second) calls := by
    refine ⟨hident, fun t _ _ => ?_, fun ⟨h, _⟩ => ?_⟩
    · unfold chainOf
      split <;> rfl
    · obtain ⟨t, ht, a, ha, haid⟩ := h
      rw [hset] at ht
      simp at ht
      rcases ht with rfl | rfl <;> cases ha <;> exact absurd haid (by decide)
  refine ⟨hreg, ?_⟩
  have huse : Uses (chainOf first second) calls "999".toList :=
    ⟨"1".toList, by rw [hset]; simp, _, rfl, rfl⟩
  rw [(held_eq_sum hreg).1 _ _ huse, hset]
  decide +kernel

/-- Two issues, of assets that share a slot. -/
def slotCalls : List Call :=
  [⟨"1".toList, some (answer "aa" "0" "5" "1739068987193023818" (attachment "0" "10"))⟩,
    ⟨"2".toList, some (answer "bb" "0" "5" "1739068987193023818" (attachment "123456" "3"))⟩]

def slotChain : Text → NXTtransaction :=
  chainOf (plain "aa" 0 "5" "1739068987193023818" "0" 10) (plain "bb" 0 "5" "1739068987193023818" "123456" 3)

theorem processed_slotCalls : processed slotCalls = {"1".toList, "2".toList} := by decide +kernel

theorem identified_slotCalls : Identified slotChain slotCalls := by
  refine identified_of_two (fun c hc json hj => ?_) processed_slotCalls rfl rfl rfl rfl ⟨0, by decide, by decide⟩
    ⟨123456, by decide, by decide⟩ ⟨by decide, by decide⟩ ⟨by decide, by decide⟩
  simp only [slotCalls, List.mem_cons, List.not_mem_nil, or_false] at hc
  rcases hc with rfl | rfl <;> cases hj <;> decide +kernel

/-- An issue, and a transfer that carries a message. -/
def carriedCalls : List Call :=
  [⟨"1".toList, some (answer "aa" "0" "5" "1739068987193023818" (attachment "999" "100"))⟩,
    ⟨"2".toList, some (answer "bb" "1" "5" "6" (("message".toList, .string "00".toList) :: attachment "999" "40"))⟩]

def carriedChain : Text → NXTtransaction :=
  chainOf (plain "aa" 0 "5" "1739068987193023818" "999" 100)
    { plain "bb" 1 "5" "6" "999" 40 with message := some "00".toList }

theorem processed_carriedCalls : processed carriedCalls = {"1".toList, "2".toList} := by decide +kernel

theorem identified_carriedCalls : Identified carriedChain carriedCalls := by
  have hid : CanonicalId "999".toList := ⟨999, by decide, by decide⟩
  refine identified_of_two (fun c hc json hj => ?_) processed_carriedCalls rfl rfl rfl rfl hid hid
    ⟨by decide, by decide⟩ ⟨by decide, by decide⟩
  simp only [carriedCalls, List.mem_cons, List.not_mem_nil, or_false] at hc
  rcases hc with rfl | rfl <;> cases hj <;> decide +kernel

/-- Neither condition of `Regular` can go: the assets `0` and `123456` share a slot, and a transfer that
carries a message is not booked. -/
theorem not_held_eq_of_identified :
    (¬ ∀ (chain : Text → NXTtransaction) (calls : List Call), Identified chain calls →
      (∀ t ∈ processed calls, (chain t).movement ≠ none → (chain t).message = none) →
      ∀ addr assetid, Uses chain calls assetid →
        held (run calls) addr assetid = ∑ t ∈ processed calls, (chain t).flow addr assetid) ∧
    ¬ ∀ (chain : Text → NXTtransaction) (calls : List Call), Identified chain calls →
      ¬ (Uses chain calls "0".toList ∧ Uses chain calls "123456".toList) →
      ∀ addr assetid, Uses chain calls assetid →
        held (run calls) addr assetid = ∑ t ∈ processed calls, (chain t).flow addr assetid := by
  constructor
  · intro hall
    have hplain : ∀ t ∈ processed slotCalls, (slotChain t).movement ≠ none → (slotChain t).message = none := by
      intro t _ _
      unfold slotChain chainOf
      split <;> rfl
    have huse : Uses slotChain slotCalls "123456".toList := ⟨"2".toList, by simp [processed_slotCalls], _, rfl, rfl⟩
    have hlaw := hall _ _ identified_slotCalls hplain "5".toList "123456".toList huse
    rw [processed_slotCalls] at hlaw
    exact absurd hlaw (by decide +kernel)
  · intro hall
    have hshared : ¬ Uses carriedChain carriedCalls "0".toList := by
      rintro ⟨t, ht, a, ha, haid⟩
      simp only [processed_carriedCalls, Finset.mem_insert, Finset.mem_singleton] at ht
      rcases ht with rfl | rfl <;> cases ha <;> exact absurd haid (by decide)
    have huse : Uses carriedChain carriedCalls "999".toList :=
        ⟨"2".toList, by simp [processed_carriedCalls], _, rfl, rfl⟩
    have hlaw := hall _ _ identified_carriedCalls (fun h => hshared h.1) "6".toList "999".toList huse
    rw [processed_carriedCalls] at hlaw
    exact absurd hlaw (by decide +kernel)

end Ledger
end NXTServices
