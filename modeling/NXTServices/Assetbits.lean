import NXTServices.Txlist

/-!
# The numbers of the assets: `NXTprotocol.c`

* `Op`, `runOps` : calls of `add_NXT_assettxid`, `transfer_asset_balance` and `get_asset_txlist` in any order;
* `AssetIdentity` : each asset of the table has the number of its key, and no two assets share a slot;
* `Op.touches`, `grown_apply` : the key that a call looks up, and the number that a new asset gets;
* `Established` : no key is looked up without its number before an `add_NXT_assettxid` has entered it;
* `assetIdentity_iff` : the sequences of calls that keep the identity.
-/

namespace NXTServices.Ledger
open Hashtable

/-! ## The calls -/

inductive Op where
  | addNXTAssettxid (assetid txid : Text)
  | transferAssetBalance (tp : Text) (assetbits : BitVec 64) (sender receiver : Text) (quantity : BitVec 64)
  | getAssetTxlist (addr assetid : Text)
deriving DecidableEq

def Op.apply (mp : NXThandlerInfo) : Op → NXThandlerInfo
  | .addNXTAssettxid assetid txid => (Ledger.addNXTAssettxid mp assetid txid).2
  | .transferAssetBalance tp assetbits sender receiver quantity =>
    Ledger.transferAssetBalance mp tp assetbits sender receiver quantity
  | .getAssetTxlist addr assetid => (Ledger.getAssetTxlist mp (mp.accts addr) assetid).2

def runOps (ops : List Op) : NXThandlerInfo := ops.foldl Op.apply {}

/-- The asset ids are canonical; a transfer gets a number. -/
def Op.Canonical : Op → Prop
  | .addNXTAssettxid assetid _ => CanonicalId assetid
  | .transferAssetBalance .. => True
  | .getAssetTxlist _ assetid => CanonicalId assetid

/-- The slot of an account that a transfer under the number `assetbits` uses. -/
def slotOf (mp : NXThandlerInfo) (addr : Text) (assetbits : BitVec 64) : Option Nat :=
  (getAssetInAcct mp.assetbits (mp.accts addr) (bookKey assetbits) false).1

/-- Some transfer under the number is not refused. -/
def Moved (ops : List Op) (assetbits : BitVec 64) : Prop :=
  ∃ tp sender receiver quantity, sender ≠ [] ∧ receiver ≠ [] ∧
    Op.transferAssetBalance tp assetbits sender receiver quantity ∈ ops

/-- Each asset has the number of its key, and assets with different numbers have different slots. -/
structure AssetIdentity (ops : List Op) (mp : NXThandlerInfo) : Prop where
  numbers : ∀ key ap, mp.assets key = some ap → ap.assetbits = calcNxt64bits key
  slots : ∀ bits bits', Moved ops bits → Moved ops bits' → bits ≠ bits' →
    ∀ addr i, slotOf mp addr bits = some i → slotOf mp addr bits' ≠ some i

/-! ## One call -/

/-- The key that a call looks up, and the number of the asset it creates if there is none. -/
def Op.touches : Op → Option (Text × BitVec 64)
  | .addNXTAssettxid assetid _ => some (assetid, calcNxt64bits assetid)
  | .transferAssetBalance _ assetbits sender receiver _ =>
    if sender = [] ∨ receiver = [] then none else some (bookKey assetbits, 0)
  | .getAssetTxlist _ assetid => some (assetid, 0)

section
variable {mp : NXThandlerInfo} {op : Op} {ops : List Op} {key : Text} {number : BitVec 64}

theorem touches_transfer (tp sender receiver : Text) (assetbits quantity : BitVec 64) :
    (Op.transferAssetBalance tp assetbits sender receiver quantity).touches =
      if sender = [] ∨ receiver = [] then none else some (bookKey assetbits, 0) := rfl

theorem number_of_touches (htouches : op.touches = some (key, number)) :
    (∃ txid, op = .addNXTAssettxid key txid ∧ number = calcNxt64bits key) ∨ number = 0 := by
  cases op with
  | addNXTAssettxid assetid txid =>
    obtain ⟨rfl, rfl⟩ := Prod.mk.inj (Option.some.inj htouches)
    exact .inl ⟨txid, rfl, rfl⟩
  | transferAssetBalance tp assetbits sender receiver quantity =>
    rw [touches_transfer] at htouches
    split at htouches
    · cases htouches
    · exact .inr (Prod.mk.inj (Option.some.inj htouches)).2.symm
  | getAssetTxlist addr assetid => exact .inr (Prod.mk.inj (Option.some.inj htouches)).2.symm

theorem grown_apply (hcanon : op.Canonical) (htouches : op.touches = some (key, number)) :
    Grown mp.assets (op.apply mp).assets key number := by
  cases op with
  | addNXTAssettxid assetid txid =>
    obtain ⟨rfl, rfl⟩ := Prod.mk.inj (Option.some.inj htouches)
    have hid : CanonicalId assetid := hcanon
    have hadd := grown_add mp.assets assetid { assetbits := calcNxt64bits assetid }
    rw [hid.storeKey_eq] at hadd
    show Grown mp.assets (addNXTAssettxid mp assetid txid).2.assets assetid (calcNxt64bits assetid)
    unfold addNXTAssettxid
    dsimp only
    split
    · apply hadd.modify
      exact fun _ => rfl
    · exact hadd
  | transferAssetBalance tp assetbits sender receiver quantity =>
    rw [touches_transfer] at htouches
    split at htouches
    · cases htouches
    · next hnames =>
      obtain ⟨rfl, rfl⟩ := Prod.mk.inj (Option.some.inj htouches)
      show Grown mp.assets (transferAssetBalance mp tp assetbits sender receiver quantity).assets (bookKey assetbits) 0
      rw [transferAssetBalance, if_neg hnames, NXThandlerInfo.assets_moveQuantity]
      exact grown_add mp.assets (expandNxt64bits assetbits) {}
  | getAssetTxlist addr assetid =>
    obtain ⟨rfl, rfl⟩ := Prod.mk.inj (Option.some.inj htouches)
    have hid : CanonicalId assetid := hcanon
    have hadd := grown_add mp.assets assetid {}
    rw [hid.storeKey_eq] at hadd
    show Grown mp.assets (getAssetTxlist mp (mp.accts addr) assetid).2.assets assetid 0
    unfold getAssetTxlist
    rw [if_neg hid.validKey.1]
    dsimp only
    split
    · split
      · exact hadd
      · exact hadd
    · exact hadd

theorem assets_apply (htouches : op.touches = none) : (op.apply mp).assets = mp.assets := by
  cases op with
  | addNXTAssettxid assetid txid => cases htouches
  | transferAssetBalance tp assetbits sender receiver quantity =>
    rw [touches_transfer] at htouches
    split at htouches
    · next hnames =>
      show (transferAssetBalance mp tp assetbits sender receiver quantity).assets = mp.assets
      rw [transferAssetBalance, if_pos hnames]
    · cases htouches
  | getAssetTxlist addr assetid => cases htouches

theorem runOps_concat (ops : List Op) (op : Op) : runOps (ops ++ [op]) = op.apply (runOps ops) := by
  rw [runOps, List.foldl_append]
  rfl

/-- A key that was looked up is in the table. -/
theorem present_of_touched (hcanon : ∀ op ∈ ops, op.Canonical) (hop : op ∈ ops)
    (htouches : op.touches = some (key, number)) : ((runOps ops).assets key).isSome := by
  induction ops using List.reverseRecOn with
  | nil => cases hop
  | append_singleton ops last ih =>
    rw [List.forall_mem_append] at hcanon
    have hlast := hcanon.2 last List.mem_cons_self
    rw [runOps_concat]
    rcases List.mem_append.mp hop with hop | hop
    · have hpresent := ih hcanon.1 hop
      cases hother : last.touches with
      | none =>
        rw [assets_apply hother]
        exact hpresent
      | some other => exact (grown_apply hlast hother).isSome hpresent
    · obtain rfl := List.mem_singleton.mp hop
      exact (grown_apply hlast htouches).here

/-! ## The condition -/

/-- A key that is looked up without its number was entered by an `add_NXT_assettxid` before. -/
def Established (ops : List Op) : Prop :=
  ∀ pre op post, ops = pre ++ op :: post → ∀ key number, op.touches = some (key, number) →
    number = calcNxt64bits key ∨ ∃ txid, Op.addNXTAssettxid key txid ∈ pre

theorem Established.of_append {post : List Op} (h : Established (ops ++ post)) : Established ops := by
  rintro pre op rest rfl
  exact h pre op (rest ++ post) (by simp)

/-- Each asset has the number of its key. -/
def Numbers (mp : NXThandlerInfo) : Prop := ∀ key ap, mp.assets key = some ap → ap.assetbits = calcNxt64bits key

theorem Numbers.grow {mp' : NXThandlerInfo} (h : Numbers mp) (hgrow : Grown mp.assets mp'.assets key number)
    (hnumber : number = calcNxt64bits key ∨ (mp.assets key).isSome) : Numbers mp' := by
  intro k ap' hap'
  cases hold : mp.assets k with
  | some ap =>
    obtain ⟨ap'', hap'', hsame⟩ := hgrow.kept k ap hold
    obtain rfl := Option.some.inj (hap'.symm.trans hap'')
    rw [hsame]
    exact h k ap hold
  | none =>
    obtain ⟨rfl, hnew⟩ := hgrow.fresh k ap' hold hap'
    rw [hnew]
    exact hnumber.resolve_right fun hsome => by simp [hold] at hsome

theorem Established.numbers (hcanon : ∀ op ∈ ops, op.Canonical) (h : Established ops) : Numbers (runOps ops) := by
  induction ops using List.reverseRecOn with
  | nil => exact fun _ _ hap => nomatch hap
  | append_singleton ops op ih =>
    rw [List.forall_mem_append] at hcanon
    have hnumbers := ih hcanon.1 h.of_append
    rw [runOps_concat]
    cases htouches : op.touches with
    | none =>
      intro key ap hap
      rw [assets_apply htouches] at hap
      exact hnumbers key ap hap
    | some touched =>
      obtain ⟨key, number⟩ := touched
      refine hnumbers.grow (grown_apply (hcanon.2 op List.mem_cons_self) htouches) ?_
      rcases h ops op [] rfl key number htouches with hnumber | ⟨txid, hadd⟩
      · exact .inl hnumber
      · exact .inr (present_of_touched hcanon.1 hadd rfl)

/-- While the numbers are right, only an `add_NXT_assettxid` enters an asset whose number is not 0. -/
theorem added_of_present (hcanon : ∀ op ∈ ops, op.Canonical) (h : ∀ pre, pre <+: ops → Numbers (runOps pre))
    (hkey : calcNxt64bits key ≠ 0) (hpresent : ((runOps ops).assets key).isSome) :
    ∃ txid, Op.addNXTAssettxid key txid ∈ ops := by
  induction ops using List.reverseRecOn with
  | nil => cases hpresent
  | append_singleton ops op ih =>
    rw [List.forall_mem_append] at hcanon
    have hrest : ((runOps ops).assets key).isSome → ∃ txid, Op.addNXTAssettxid key txid ∈ ops ++ [op] := by
      intro hbefore
      obtain ⟨txid, hadd⟩ := ih hcanon.1 (fun pre hpre => h pre (hpre.trans (List.prefix_append _ _))) hbefore
      exact ⟨txid, List.mem_append_left _ hadd⟩
    cases hbefore : (runOps ops).assets key with
    | some ap => exact hrest (by simp [hbefore])
    | none =>
      have hnumbers := h (ops ++ [op]) (List.prefix_refl _)
      obtain ⟨ap, hap⟩ := Option.isSome_iff_exists.mp hpresent
      have hnumber := hnumbers key ap hap
      rw [runOps_concat] at hap
      cases htouches : op.touches with
      | none =>
        rw [assets_apply htouches, hbefore] at hap
        cases hap
      | some touched =>
        obtain ⟨touchedKey, number⟩ := touched
        obtain ⟨rfl, hnew⟩ := (grown_apply (hcanon.2 op List.mem_cons_self) htouches).fresh key ap hbefore hap
        rcases number_of_touches htouches with ⟨txid, rfl, -⟩ | hzero
        · exact ⟨txid, List.mem_append_right _ List.mem_cons_self⟩
        · exact absurd (hnumber.symm.trans (hnew.trans hzero)) hkey

theorem Established.of_numbers (hcanon : ∀ op ∈ ops, op.Canonical) (h : ∀ pre, pre <+: ops → Numbers (runOps pre)) :
    Established ops := by
  rintro pre op post rfl key number htouches
  rw [List.forall_mem_append, List.forall_mem_cons] at hcanon
  by_cases hnumber : number = calcNxt64bits key
  · exact .inl hnumber
  · right
    have hzero : number = 0 := by
      rcases number_of_touches htouches with ⟨-, -, hcalc⟩ | hzero
      · exact absurd hcalc hnumber
      · exact hzero
    have hpre : ∀ pre', pre' <+: pre → Numbers (runOps pre') :=
        fun pre' hpre' => h pre' (hpre'.trans (List.prefix_append _ _))
    refine added_of_present hcanon.1 hpre (fun hkey => hnumber (hzero.trans hkey.symm)) ?_
    by_contra habsent
    have hgrow : Grown (runOps pre).assets (op.apply (runOps pre)).assets key number := grown_apply hcanon.2.1 htouches
    obtain ⟨ap, hap⟩ := Option.isSome_iff_exists.mp hgrow.here
    have hnew := (hgrow.fresh key ap (Option.not_isSome_iff_eq_none.mp habsent) hap).2
    rw [← runOps_concat] at hap
    exact hnumber (hnew.symm.trans (h (pre ++ [op]) ⟨post, by simp⟩ key ap hap))

/-! ## The slots -/

/-- The number 0 has no text, and its key is that of 123456. -/
theorem calcNxt64bits_bookKey (bits : BitVec 64) :
    calcNxt64bits (bookKey bits) = if bits = 0 then calcNxt64bits noKey else bits := by
  split
  · next hzero =>
    subst hzero
    decide
  · next hne =>
    have hid : CanonicalId (Nat.toDigits 10 bits.toNat) := ⟨bits.toNat, bits.isLt, rfl⟩
    have hcalc : calcNxt64bits (Nat.toDigits 10 bits.toNat) = bits := by
      rw [calcNxt64bits_toDigits bits.isLt, BitVec.ofNat_toNat, BitVec.setWidth_eq]
    have hdigits : Nat.toDigits 10 bits.toNat ≠ "0".toList := by
      intro heq
      rw [heq] at hcalc
      exact hne hcalc.symm
    have hbook := hid.bookKey_eq hdigits
    rw [hcalc] at hbook
    rw [hbook, hcalc]

theorem assetbits_of_slotOf {addr : Text} {bits : BitVec 64} {i : Nat} (h : slotOf mp addr bits = some i) :
    ∃ a, (mp.accts addr).assets[i]? = some a ∧ mp.assetbits a = mp.assetbits (bookKey bits) := by
  rw [slotOf, getAssetInAcct_false] at h
  obtain ⟨hi, hsame, -⟩ := List.findIdx?_eq_some_iff_getElem.mp h
  exact ⟨_, List.getElem?_eq_getElem hi, by simpa using hsame⟩

theorem present_of_moved (hcanon : ∀ op ∈ ops, op.Canonical) {bits : BitVec 64} (h : Moved ops bits) :
    ((runOps ops).assets (bookKey bits)).isSome := by
  obtain ⟨tp, sender, receiver, quantity, hsender, hreceiver, hop⟩ := h
  have htouches : (Op.transferAssetBalance tp bits sender receiver quantity).touches = some (bookKey bits, 0) := by
    rw [touches_transfer, if_neg (by simp [hsender, hreceiver])]
  exact present_of_touched hcanon hop htouches

theorem Numbers.assetbits_eq (h : Numbers mp) (hpresent : (mp.assets key).isSome) :
    mp.assetbits key = calcNxt64bits key := by
  obtain ⟨ap, hap⟩ := Option.isSome_iff_exists.mp hpresent
  rw [NXThandlerInfo.assetbits, hap]
  exact h key ap hap

/-- Numbers that share a slot are 0 and 123456. -/
theorem Numbers.slots (hcanon : ∀ op ∈ ops, op.Canonical) (h : Numbers (runOps ops))
    (hapart : ¬ (Moved ops 0 ∧ Moved ops (calcNxt64bits noKey))) {bits bits' : BitVec 64} (hmoved : Moved ops bits)
    (hmoved' : Moved ops bits') (hne : bits ≠ bits') {addr : Text} {i : Nat}
    (hslot : slotOf (runOps ops) addr bits = some i) : slotOf (runOps ops) addr bits' ≠ some i := by
  intro hslot'
  obtain ⟨a, ha, hsame⟩ := assetbits_of_slotOf hslot
  obtain ⟨a', ha', hsame'⟩ := assetbits_of_slotOf hslot'
  obtain rfl := Option.some.inj (ha.symm.trans ha')
  have hcalc := hsame.symm.trans hsame'
  rw [h.assetbits_eq (present_of_moved hcanon hmoved), h.assetbits_eq (present_of_moved hcanon hmoved'),
    calcNxt64bits_bookKey, calcNxt64bits_bookKey] at hcalc
  by_cases hzero : bits = 0
  · by_cases hzero' : bits' = 0
    · exact hne (hzero.trans hzero'.symm)
    · rw [if_pos hzero, if_neg hzero'] at hcalc
      exact hapart ⟨hzero ▸ hmoved, hcalc ▸ hmoved'⟩
  · rw [if_neg hzero] at hcalc
    by_cases hzero' : bits' = 0
    · rw [if_pos hzero'] at hcalc
      exact hapart ⟨hzero' ▸ hmoved', hcalc ▸ hmoved⟩
    · rw [if_neg hzero'] at hcalc
      exact hne hcalc

theorem NXTAcct.slot_enter (acct : NXTAcct) (f : Text → BitVec 64) (ap tp : Text) (quantity : BitVec 64) :
    ((acct.enter f ap tp quantity).slot f (f ap)).isSome := by
  obtain ⟨i, acct', heq, hslot⟩ := getAssetInAcct_true f acct ap
  rw [NXTAcct.enter, heq]
  have hsame : (addtoAccountTxlist (addQuantity acct' i quantity) i tp).slot f (f ap) = acct'.slot f (f ap) := rfl
  dsimp only
  rw [hsame, hslot]
  rfl

theorem slotOf_transfer (mp : NXThandlerInfo) (tp : Text) (bits : BitVec 64) {sender receiver : Text}
    (hsender : sender ≠ []) (hreceiver : receiver ≠ []) (quantity : BitVec 64) :
    (slotOf (transferAssetBalance mp tp bits sender receiver quantity) sender bits).isSome := by
  rw [slotOf, getAssetInAcct_false, transferAssetBalance, if_neg (by simp [hsender, hreceiver]),
    NXThandlerInfo.assetbits_moveQuantity, accts_moveQuantity]
  dsimp only
  rw [if_pos rfl]
  split
  · exact NXTAcct.slot_enter ..
  · exact NXTAcct.slot_enter ..

theorem moved_concat {op : Op} {bits : BitVec 64} (h : Moved (ops ++ [op]) bits) :
    Moved ops bits ∨ ∃ tp sender receiver quantity, sender ≠ [] ∧ receiver ≠ [] ∧
      op = Op.transferAssetBalance tp bits sender receiver quantity := by
  obtain ⟨tp, sender, receiver, quantity, hsender, hreceiver, hop⟩ := h
  rcases List.mem_append.mp hop with hop | hop
  · exact .inl ⟨tp, sender, receiver, quantity, hsender, hreceiver, hop⟩
  · exact .inr ⟨tp, sender, receiver, quantity, hsender, hreceiver, (List.mem_singleton.mp hop).symm⟩

theorem bookKey_zero : bookKey 0 = noKey := by decide

theorem bookKey_noKey : bookKey (calcNxt64bits noKey) = noKey := by decide

/-- The numbers 0 and 123456 share a slot once both have moved. -/
theorem AssetIdentity.apart (h : ∀ pre, pre <+: ops → AssetIdentity pre (runOps pre)) :
    ¬ (Moved ops 0 ∧ Moved ops (calcNxt64bits noKey)) := by
  induction ops using List.reverseRecOn with
  | nil =>
    rintro ⟨⟨_, _, _, _, _, _, hop⟩, -⟩
    cases hop
  | append_singleton ops op ih =>
    rintro ⟨hzero, hno⟩
    have hlast {bits tp sender receiver quantity} (hbits : bookKey bits = noKey) (hsender : sender ≠ [])
        (hreceiver : receiver ≠ []) (hop : op = Op.transferAssetBalance tp bits sender receiver quantity) : False := by
      have hslot := slotOf_transfer (runOps ops) tp bits hsender hreceiver quantity
      have hrun : runOps (ops ++ [op]) = transferAssetBalance (runOps ops) tp bits sender receiver quantity := by
        rw [runOps_concat, hop]
        rfl
      rw [← hrun] at hslot
      obtain ⟨i, hi⟩ := Option.isSome_iff_exists.mp hslot
      rw [slotOf, hbits] at hi
      refine (h (ops ++ [op]) (List.prefix_refl _)).slots 0 (calcNxt64bits noKey) hzero hno (by decide) sender i ?_ ?_
      · rw [slotOf, bookKey_zero]
        exact hi
      · rw [slotOf, bookKey_noKey]
        exact hi
    rcases moved_concat hzero with hzero | ⟨tp, sender, receiver, quantity, hsender, hreceiver, hop⟩
    · rcases moved_concat hno with hno | ⟨tp, sender, receiver, quantity, hsender, hreceiver, hop⟩
      · exact ih (fun pre hpre => h pre (hpre.trans (List.prefix_append _ _))) ⟨hzero, hno⟩
      · exact hlast bookKey_noKey hsender hreceiver hop
    · exact hlast bookKey_zero hsender hreceiver hop

/-! ## The identity over a run -/

/-- **When the identity of the assets holds**, after each call: no key is looked up without its number before it was
entered, and the numbers 0 and 123456 do not both move. -/
theorem assetIdentity_iff (ops : List Op) (hcanon : ∀ op ∈ ops, op.Canonical) :
    (∀ pre, pre <+: ops → AssetIdentity pre (runOps pre)) ↔
      Established ops ∧ ¬ (Moved ops 0 ∧ Moved ops (calcNxt64bits noKey)) := by
  constructor
  · intro h
    exact ⟨Established.of_numbers hcanon fun pre hpre => (h pre hpre).numbers, AssetIdentity.apart h⟩
  · rintro ⟨hestablished, hapart⟩ pre ⟨post, rfl⟩
    have hpre : ∀ op ∈ pre, op.Canonical := fun op hop => hcanon op (List.mem_append_left _ hop)
    have hnumbers := hestablished.of_append.numbers hpre
    have hmono : ∀ {bits}, Moved pre bits → Moved (pre ++ post) bits := by
      rintro bits ⟨tp, sender, receiver, quantity, hsender, hreceiver, hop⟩
      exact ⟨tp, sender, receiver, quantity, hsender, hreceiver, List.mem_append_left _ hop⟩
    refine ⟨hnumbers, fun bits bits' hmoved hmoved' hne addr i hslot => ?_⟩
    exact hnumbers.slots hpre (fun hboth => hapart ⟨hmono hboth.1, hmono hboth.2⟩) hmoved hmoved' hne hslot

end

/-- An asset is entered before it moves and is asked for. -/
def enteredFirst : List Op :=
  [ .addNXTAssettxid "999".toList "1".toList,
    .transferAssetBalance "1".toList 999#64 "7".toList "8".toList 5#64,
    .getAssetTxlist "7".toList "999".toList ]

theorem established_enteredFirst : Established enteredFirst := by
  intro pre op post heq key number htouches
  cases pre with
  | nil =>
    obtain ⟨rfl, -⟩ := List.cons.inj heq
    obtain ⟨rfl, rfl⟩ := Prod.mk.inj (Option.some.inj htouches)
    exact .inl rfl
  | cons first pre =>
    obtain ⟨rfl, hrest⟩ := List.cons.inj heq
    have hkeys : ∀ op ∈ enteredFirst, op.touches.map Prod.fst = some "999".toList := by decide +kernel
    have hop : op ∈ enteredFirst := .tail _ (hrest ▸ List.mem_append_right pre List.mem_cons_self)
    have hkey := hkeys op hop
    rw [htouches] at hkey
    obtain rfl := Option.some.inj hkey
    exact .inr ⟨"1".toList, List.mem_cons_self⟩

theorem assetIdentity_enteredFirst : AssetIdentity enteredFirst (runOps enteredFirst) := by
  have hid : CanonicalId "999".toList := ⟨999, by decide, by decide⟩
  have hcanon : ∀ op ∈ enteredFirst, op.Canonical := by
    simp only [enteredFirst, List.forall_mem_cons]
    exact ⟨hid, trivial, hid, List.forall_mem_nil _⟩
  have hapart : ¬ (Moved enteredFirst 0 ∧ Moved enteredFirst (calcNxt64bits noKey)) := by
    rintro ⟨⟨tp, sender, receiver, quantity, -, -, hop⟩, -⟩
    simp [enteredFirst] at hop
  exact (assetIdentity_iff enteredFirst hcanon).mpr ⟨established_enteredFirst, hapart⟩ _ (List.prefix_refl _)

/-- An asset is asked for before its first transaction. -/
def askedFirst : List Op := [.getAssetTxlist "7".toList "999".toList, .addNXTAssettxid "999".toList "1".toList]

theorem canonical_askedFirst : ∀ op ∈ askedFirst, op.Canonical := by
  have hid : CanonicalId "999".toList := ⟨999, by decide, by decide⟩
  simp only [askedFirst, List.forall_mem_cons]
  exact ⟨hid, hid, List.forall_mem_nil _⟩

/-- It keeps the number 0. -/
theorem not_forall_assetIdentity :
    ¬ ∀ ops : List Op, (∀ op ∈ ops, op.Canonical) → AssetIdentity ops (runOps ops) := by
  intro h
  have hzero : ((runOps askedFirst).assets "999".toList).map NXTAsset.assetbits = some 0 := by decide +kernel
  obtain ⟨ap, hap, hbits⟩ := Option.map_eq_some_iff.mp hzero
  have hnumber := (h askedFirst canonical_askedFirst).numbers _ ap hap
  rw [hbits] at hnumber
  exact absurd hnumber (by decide)

end NXTServices.Ledger
