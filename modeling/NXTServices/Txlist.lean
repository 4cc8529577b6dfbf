import NXTServices.Ledger
import NXTServices.Lib.Upsert

/-!
# The transactions of an account: `get_asset_txlist` of `NXTprotocol.c`

* `getAssetTxlist` : the list of an account for an asset;
* `Keeps` : the accounts hold what was entered, one row for each asset number;
* `Keeps.transfer`, `getAssetTxlist_eq` : a transfer enters both parties, and what the query answers;
* `history` : the transactions of an account in an asset, as the chain means it;
* `Chronicle` : the tables and accounts after some transactions;
* `Answered`, `getAssetTxlist_iff` : when the query answers with the history.
-/

namespace NXTServices.Ledger
open Hashtable Upsert

/-! ## The query -/

/-- A pointer that is null until something is added to the list. -/
def nonNull (txids : List Text) : Option (List Text) := if txids = [] then none else some txids

/-- `np` is an account; its list for the asset, and the tables afterwards. -/
def getAssetTxlist (mp : NXThandlerInfo) (np : NXTAcct) (assetid : Text) : Option (List Text) × NXThandlerInfo :=
  if assetid = [] then (none, mp)
  else
    let ap := mp.assets.add 24 assetid {}
    let mp := { mp with assets := ap.table }
    match (getAssetInAcct mp.assetbits np ap.key false).1 with
    | some ind => if 0 < ind then (nonNull (np.txlists.getD ind []), mp) else (none, mp)
    | none => (none, mp)

/-! ## The slots of an account -/

/-- An asset number and the transactions under it. -/
abbrev Row := BitVec 64 × List Text

def Row.join (row new : Row) : Row := (row.1, row.2 ++ new.2)

/-- The rows of what was entered: transactions, each under an asset number. -/
def rowsOf (entered : List (BitVec 64 × Text)) : List Row :=
  rows Prod.fst Row.join (entered.map fun e => (e.1, [e.2]))

/-- A find-or-create of the slot of `ap`, and the writes to it. -/
def NXTAcct.enter (acct : NXTAcct) (assetbits : Text → BitVec 64) (ap tp : Text) (quantity : BitVec 64) : NXTAcct :=
  match getAssetInAcct assetbits acct ap true with
  | (some i, acct) => addtoAccountTxlist (addQuantity acct i quantity) i tp
  | (none, acct) => acct

section
variable {acct : NXTAcct} {f : Text → BitVec 64} {ap tp : Text} {l : List Row}

theorem rowsOf_concat (entered : List (BitVec 64 × Text)) (e : BitVec 64 × Text) :
    rowsOf (entered ++ [e]) = upsert Prod.fst Row.join (e.1, [e.2]) (rowsOf entered) := by
  rw [rowsOf, List.map_append, List.map_singleton, rows_concat]
  rfl

/-- The arrays of an account hold the rows. -/
structure NXTAcct.Lists (acct : NXTAcct) (f : Text → BitVec 64) (l : List Row) : Prop where
  assets : acct.assets.map f = l.map Prod.fst
  txlists : acct.txlists = l.map Prod.snd

theorem NXTAcct.Lists.slot_eq (h : acct.Lists f l) (bits : BitVec 64) :
    acct.slot f bits = l.findIdx? (fun row => row.1 == bits) := by
  have hassets : acct.slot f bits = (acct.assets.map f).findIdx? (· == bits) := by
    rw [List.findIdx?_map]
    rfl
  rw [hassets, h.assets, List.findIdx?_map]
  rfl

theorem NXTAcct.Lists.enter (h : acct.Lists f l) (quantity : BitVec 64) :
    (acct.enter f ap tp quantity).Lists f (upsert Prod.fst Row.join (f ap, [tp]) l) := by
  have hslot : acct.assets.findIdx? (fun a => f a == f ap) =
      l.findIdx? fun row : Row => decide (Prod.fst row = Prod.fst (f ap, [tp])) := h.slot_eq (f ap)
  unfold NXTAcct.enter getAssetInAcct
  rw [hslot]
  cases hfind : l.findIdx? fun row : Row => decide (Prod.fst row = Prod.fst (f ap, [tp])) with
  | some i =>
    rw [upsert_of_some hfind]
    refine ⟨?_, ?_⟩
    · have hkeys : (l.modify i fun row => row.join (f ap, [tp])).map Prod.fst = (l.map Prod.fst).modify i id := by
        apply map_modify
        exact fun _ => rfl
      rw [hkeys, List.modify_id]
      exact h.assets
    · have htxids : (l.modify i fun row => row.join (f ap, [tp])).map Prod.snd =
          (l.map Prod.snd).modify i (· ++ [tp]) := by
        apply map_modify
        exact fun _ => rfl
      rw [htxids, ← h.txlists]
      rfl
  | none =>
    rw [upsert_of_none hfind]
    refine ⟨?_, ?_⟩
    · rw [List.map_append, ← h.assets]
      exact List.map_append
    · have hlength : acct.assets.length = acct.txlists.length := by
        rw [h.txlists, List.length_map, ← List.length_map (f := Prod.fst), ← h.assets, List.length_map]
      rw [List.map_append, ← h.txlists]
      show (acct.txlists ++ [[]]).modify acct.assets.length (· ++ [tp]) = _
      rw [hlength, modify_concat]
      rfl

theorem NXTAcct.mem_assets_enter {a : Text} {quantity : BitVec 64} (h : a ∈ (acct.enter f ap tp quantity).assets) :
    a ∈ acct.assets ∨ a = ap := by
  unfold NXTAcct.enter getAssetInAcct at h
  cases hfind : acct.assets.findIdx? fun a => f a == f ap with
  | some i =>
    rw [hfind] at h
    exact .inl h
  | none =>
    rw [hfind] at h
    rcases List.mem_append.mp h with h | h
    · exact .inl h
    · exact .inr (List.mem_singleton.mp h)

theorem getAssetInAcct_true (f : Text → BitVec 64) (acct : NXTAcct) (ap : Text) :
    ∃ i acct', getAssetInAcct f acct ap true = (some i, acct') ∧ acct'.slot f (f ap) = some i := by
  cases hslot : acct.slot f (f ap) with
  | some i => exact ⟨i, acct, getAssetInAcct_of_slot hslot true, hslot⟩
  | none =>
    unfold NXTAcct.slot at hslot
    refine ⟨acct.assets.length, ⟨acct.assets ++ [ap], acct.quantities ++ [0], acct.txlists ++ [[]]⟩, ?_, ?_⟩
    · unfold getAssetInAcct
      rw [hslot]
      rfl
    · unfold NXTAcct.slot
      rw [List.findIdx?_append, hslot]
      simp

end

/-! ## One transfer -/

/-- The turns of an account in a transaction: as its sender, and as its receiver. -/
def turns (sender receiver addr tp : Text) : List Text :=
  (if sender = addr then [tp] else []) ++ (if receiver = addr then [tp] else [])

/-- A transfer is an entry of the sender and then one of the receiver, who may be the sender. -/
theorem accts_moveQuantity (mp : NXThandlerInfo) (ap tp sender receiver : Text) (quantity : BitVec 64) (addr : Text) :
    (moveQuantity mp ap tp sender receiver quantity).accts addr =
      let once :=
        if sender = addr then (mp.accts addr).enter mp.assetbits ap tp (-quantity) else mp.accts addr
      if receiver = addr then once.enter mp.assetbits ap tp quantity else once := by
  obtain ⟨i, src, hsrc, hi⟩ := getAssetInAcct_true mp.assetbits (mp.accts sender) ap
  obtain ⟨j, dest, hdest, hj⟩ := getAssetInAcct_true mp.assetbits ((mp.setAcct sender src).accts receiver) ap
  have hfirst : (mp.accts sender).enter mp.assetbits ap tp (-quantity) =
      addtoAccountTxlist (addQuantity src i (-quantity)) i tp := by
    rw [NXTAcct.enter, hsrc]
  simp only [moveQuantity, hsrc, setAcct_assetbits, hdest]
  by_cases heq : sender = receiver
  · subst heq
    have hsame : (mp.setAcct sender src).accts sender = src := Function.update_self ..
    rw [hsame, getAssetInAcct_of_slot hi] at hdest
    cases hdest
    by_cases haddr : sender = addr
    · subst haddr
      have hsecond (acct : NXTAcct) (hacct : acct.assets = src.assets) : acct.enter mp.assetbits ap tp quantity =
          addtoAccountTxlist (addQuantity acct i quantity) i tp := by
        have hslot : acct.slot mp.assetbits (mp.assetbits ap) = some i := by
          rw [NXTAcct.slot, hacct]
          exact hi
        rw [NXTAcct.enter, getAssetInAcct_of_slot hslot]
      have hassets : (addtoAccountTxlist (addQuantity src i (-quantity)) i tp).assets = src.assets := rfl
      simp only [if_true, hfirst, hsecond _ hassets, NXThandlerInfo.setAcct, Function.update_self]
    · simp [NXThandlerInfo.setAcct, haddr, Ne.symm haddr]
  · have hother : (mp.setAcct sender src).accts receiver = mp.accts receiver := Function.update_of_ne (Ne.symm heq) ..
    rw [hother] at hdest
    have hsecond : (mp.accts receiver).enter mp.assetbits ap tp quantity =
        addtoAccountTxlist (addQuantity dest j quantity) j tp := by
      rw [NXTAcct.enter, hdest]
    by_cases hsend : sender = addr
    · subst hsend
      simp [NXThandlerInfo.setAcct, heq, Ne.symm heq, hfirst]
    · by_cases hrecv : receiver = addr
      · subst hrecv
        simp [NXThandlerInfo.setAcct, heq, Ne.symm heq, hsecond]
      · simp [NXThandlerInfo.setAcct, hsend, hrecv, Ne.symm hsend, Ne.symm hrecv]

/-- The accounts hold what was entered, and their assets are in the table. -/
structure NXThandlerInfo.Keeps (mp : NXThandlerInfo) (entered : Text → List (BitVec 64 × Text)) : Prop where
  lists : ∀ addr, (mp.accts addr).Lists mp.assetbits (rowsOf (entered addr))
  listed : ∀ addr, ∀ a ∈ (mp.accts addr).assets, (mp.assets a).isSome

/-- The key under which `transfer_asset_balance` looks for an asset. -/
def bookKey (assetbits : BitVec 64) : Text := storeKey 24 (expandNxt64bits assetbits)

/-- What an account has entered after a transfer under the number `bits`. -/
def enteredBy (bits : BitVec 64) (sender receiver tp : Text) (entered : Text → List (BitVec 64 × Text)) (addr : Text) :
    List (BitVec 64 × Text) :=
  entered addr ++ (turns sender receiver addr tp).map fun t => (bits, t)

namespace NXThandlerInfo
variable {mp mp' : NXThandlerInfo} {entered : Text → List (BitVec 64 × Text)} {key : Text} {bits : BitVec 64}

theorem Keeps.grow (h : mp.Keeps entered) (haccts : mp'.accts = mp.accts)
    (hgrow : Grown mp.assets mp'.assets key bits) :
    mp'.Keeps entered := by
  constructor
  · intro addr
    rw [haccts]
    refine ⟨?_, (h.lists addr).txlists⟩
    rw [← (h.lists addr).assets]
    exact List.map_congr_left fun a ha => hgrow.assetbits (h.listed addr a ha)
  · intro addr a ha
    rw [haccts] at ha
    exact hgrow.isSome (h.listed addr a ha)

theorem assets_moveQuantity (mp : NXThandlerInfo) (ap tp sender receiver : Text) (quantity : BitVec 64) :
    (moveQuantity mp ap tp sender receiver quantity).assets = mp.assets := by
  unfold moveQuantity
  dsimp only
  split
  · rfl
  · rfl

theorem assetbits_moveQuantity (mp : NXThandlerInfo) (ap tp sender receiver : Text) (quantity : BitVec 64) :
    (moveQuantity mp ap tp sender receiver quantity).assetbits = mp.assetbits := by
  funext a
  rw [assetbits, assets_moveQuantity]
  rfl

theorem Keeps.move (h : mp.Keeps entered) {ap : Text} (hap : (mp.assets ap).isSome) (tp sender receiver : Text)
    (quantity : BitVec 64) :
    (moveQuantity mp ap tp sender receiver quantity).Keeps
      (enteredBy (mp.assetbits ap) sender receiver tp entered) := by
  constructor
  · intro addr
    rw [accts_moveQuantity, assetbits_moveQuantity, enteredBy, turns]
    dsimp only
    have hlists := h.lists addr
    by_cases hsend : sender = addr <;> by_cases hrecv : receiver = addr
    · rw [if_pos hsend, if_pos hrecv, if_pos hsend, if_pos hrecv, List.map_append, List.map_singleton,
        ← List.append_assoc, rowsOf_concat, rowsOf_concat]
      exact (hlists.enter (-quantity)).enter quantity
    · rw [if_pos hsend, if_neg hrecv, if_pos hsend, if_neg hrecv, List.append_nil, List.map_singleton, rowsOf_concat]
      exact hlists.enter (-quantity)
    · rw [if_neg hsend, if_pos hrecv, if_neg hsend, if_pos hrecv, List.nil_append, List.map_singleton, rowsOf_concat]
      exact hlists.enter quantity
    · rw [if_neg hsend, if_neg hrecv, if_neg hsend, if_neg hrecv, List.append_nil, List.map_nil, List.append_nil]
      exact hlists
  · intro addr a ha
    rw [assets_moveQuantity]
    rw [accts_moveQuantity] at ha
    have hold : ∀ {acct : NXTAcct}, (∀ b ∈ acct.assets, (mp.assets b).isSome) → ∀ q,
        ∀ b ∈ (acct.enter mp.assetbits ap tp q).assets, (mp.assets b).isSome := by
      intro acct hacct q b hb
      rcases NXTAcct.mem_assets_enter hb with hb | rfl
      · exact hacct b hb
      · exact hap
    dsimp only at ha
    split at ha
    · split at ha
      · exact hold (hold (h.listed addr) _) _ a ha
      · exact hold (h.listed addr) _ a ha
    · split at ha
      · exact hold (h.listed addr) _ a ha
      · exact h.listed addr a ha

/-- **A transfer** enters its transaction for both parties, under the number of its key. -/
theorem Keeps.transfer (h : mp.Keeps entered) {sender receiver : Text} (hsender : sender ≠ [])
    (hreceiver : receiver ≠ []) (tp : Text) (quantity : BitVec 64)
    (hmp' : mp' = transferAssetBalance mp tp bits sender receiver quantity) :
    Grown mp.assets mp'.assets (bookKey bits) 0 ∧
      mp'.Keeps (enteredBy (mp'.assetbits (bookKey bits)) sender receiver tp entered) := by
  have hgrow := grown_add mp.assets (expandNxt64bits bits) {}
  have heq : mp' = moveQuantity { mp with assets := (mp.assets.add 24 (expandNxt64bits bits) {}).table } (bookKey bits)
      tp sender receiver quantity := by
    rw [hmp', transferAssetBalance, if_neg (by simp [hsender, hreceiver])]
    rfl
  have hfound : NXThandlerInfo.Keeps { mp with assets := (mp.assets.add 24 (expandNxt64bits bits) {}).table } entered :=
    h.grow rfl hgrow
  rw [heq, assets_moveQuantity, assetbits_moveQuantity]
  exact ⟨hgrow, hfound.move hgrow.here tp sender receiver quantity⟩

end NXThandlerInfo

/-! ## What the query answers -/

/-- The list that is read under a number: none for the number of the first slot. -/
def answerTo (bits : BitVec 64) (entered : List (BitVec 64 × Text)) : Option (List Text) :=
  if entered.head?.map Prod.fst = some bits then none
  else nonNull ((entered.filter fun e => e.1 = bits).map Prod.snd)

/-- A lookup leaves the numbers as they are, since a new asset has the number 0. -/
theorem assetbits_add (mp : NXThandlerInfo) (key : Text) :
    NXThandlerInfo.assetbits { mp with assets := (mp.assets.add 24 key {}).table } = mp.assetbits := by
  funext a
  cases hkey : mp.assets (storeKey 24 key) with
  | some ap => simp only [NXThandlerInfo.assetbits, Table.add_table_of_some hkey]
  | none =>
    simp only [NXThandlerInfo.assetbits, Table.add_table_of_none hkey]
    by_cases ha : a = storeKey 24 key
    · subst ha
      rw [Function.update_self, hkey]
    · rw [Function.update_of_ne ha]

theorem snd_mergeAll (entered : List (BitVec 64 × Text)) {row : Row}
    (h : mergeAll Row.join (entered.map fun e => (e.1, [e.2])) = some row) : row.2 = entered.map Prod.snd := by
  induction entered using List.reverseRecOn generalizing row with
  | nil => cases h
  | append_singleton entered e ih =>
    rw [List.map_append, List.map_singleton, mergeAll_concat] at h
    rw [List.map_append, List.map_singleton]
    cases hrest : mergeAll Row.join (entered.map fun e => (e.1, [e.2])) with
    | some row' =>
      rw [hrest] at h
      obtain rfl := Option.some.inj h
      rw [← ih hrest]
      rfl
    | none =>
      rw [hrest] at h
      obtain rfl := Option.some.inj h
      cases entered with
      | nil => rfl
      | cons _ _ => cases hrest

theorem join_fst (y x : Row) : (y.join x).1 = y.1 := rfl

/-- The row of a number has what was entered under it. -/
theorem find?_rowsOf (entered : List (BitVec 64 × Text)) (bits : BitVec 64) :
    ((rowsOf entered).find? fun row => row.1 = bits).elim [] Prod.snd =
      (entered.filter fun e => e.1 = bits).map Prod.snd := by
  have hfilter : (entered.map fun e => (e.1, [e.2])).filter (fun row : Row => row.1 = bits) =
      (entered.filter fun e => e.1 = bits).map fun e => (e.1, [e.2]) := by
    rw [List.filter_map]
    rfl
  rw [rowsOf, find?_rows join_fst, hfilter]
  cases hmerge : mergeAll Row.join ((entered.filter fun e => e.1 = bits).map fun e => (e.1, [e.2])) with
  | some row => exact snd_mergeAll _ hmerge
  | none =>
    cases hrest : entered.filter fun e => e.1 = bits with
    | nil => rfl
    | cons e rest =>
      rw [hrest] at hmerge
      cases hmerge

theorem head?_rowsOf (entered : List (BitVec 64 × Text)) :
    (rowsOf entered).head?.map Prod.fst = entered.head?.map Prod.fst := by
  rw [rowsOf, head?_rows join_fst, List.head?_map, Option.map_map]
  rfl

theorem getAssetInAcct_false (f : Text → BitVec 64) (acct : NXTAcct) (ap : Text) :
    (getAssetInAcct f acct ap false).1 = acct.slot f (f ap) := by
  unfold getAssetInAcct NXTAcct.slot
  cases acct.assets.findIdx? fun a => f a == f ap <;> rfl

/-- **What the query answers**: the list under the number that the table has for the asset. -/
theorem getAssetTxlist_eq {mp : NXThandlerInfo} {entered : Text → List (BitVec 64 × Text)} (h : mp.Keeps entered)
    {assetid : Text} (hne : assetid ≠ []) (addr : Text) :
    (getAssetTxlist mp (mp.accts addr) assetid).1 = answerTo (mp.assetbits (storeKey 24 assetid)) (entered addr) := by
  unfold getAssetTxlist answerTo
  rw [if_neg hne]
  dsimp only
  rw [assetbits_add, getAssetInAcct_false, Table.add_key, (h.lists addr).slot_eq, (h.lists addr).txlists,
    ← head?_rowsOf, ← find?_rowsOf]
  set bits := mp.assetbits (storeKey 24 assetid)
  cases hfind : (rowsOf (entered addr)).findIdx? fun row => row.1 == bits with
  | none =>
    have hnone : (rowsOf (entered addr)).find? (fun row => row.1 = bits) = none := by
      rw [List.find?_eq_none]
      rw [List.findIdx?_eq_none_iff] at hfind
      exact fun row hrow => by simpa using hfind row hrow
    rw [hnone]
    dsimp only [Option.elim]
    split
    · rfl
    · rfl
  | some i =>
    obtain ⟨hi, hbits, hbefore⟩ := List.findIdx?_eq_some_iff_getElem.mp hfind
    have hrow : (rowsOf (entered addr)).find? (fun row => row.1 = bits) = some (rowsOf (entered addr))[i] := by
      rw [List.find?_eq_some_iff_getElem]
      exact ⟨by simpa using hbits, i, hi, rfl, fun j hj => by simpa using hbefore j hj⟩
    rw [hrow]
    cases i with
    | zero =>
      have hhead : (rowsOf (entered addr)).head?.map Prod.fst = some bits := by
        rw [List.head?_eq_getElem?, List.getElem?_eq_getElem hi, Option.map_some]
        exact congrArg some (by simpa using hbits)
      rw [if_pos hhead]
      rfl
    | succ i =>
      have hhead : (rowsOf (entered addr)).head?.map Prod.fst ≠ some bits := by
        have hlen : 0 < (rowsOf (entered addr)).length := Nat.lt_of_le_of_lt (Nat.zero_le _) hi
        rw [List.head?_eq_getElem?, List.getElem?_eq_getElem hlen, Option.map_some]
        have hfirst := hbefore 0 (Nat.succ_pos i)
        exact fun heq => hfirst (by simpa using Option.some.inj heq)
      rw [if_neg hhead]
      dsimp only
      rw [if_pos (Nat.succ_pos i)]
      simp [List.getD_eq_getElem?_getD, List.getElem?_eq_getElem hi]

/-! ## The history of an account -/

/-- The processed transactions, each where it is processed first. -/
def order (calls : List Call) : List Text :=
  calls.foldl (fun ts c => if c.response.isSome ∧ c.txid ∉ ts then ts ++ [c.txid] else ts) []

/-- The turns of an account in the movements that `p` selects. -/
def turnsWhere (chain : Text → NXTtransaction) (ts : List Text) (addr : Text) (p : Text → Movement → Bool) :
    List Text :=
  ts.flatMap fun t =>
    match (chain t).movement with
    | none => []
    | some m => if p t m then turns m.sender m.receiver addr t else []

/-- The transactions of an account in an asset; one to itself is there twice. -/
def history (chain : Text → NXTtransaction) (calls : List Call) (addr assetid : Text) : List Text :=
  turnsWhere chain (order calls) addr fun _ m => m.assetid = assetid

def Movement.Party (m : Movement) (addr : Text) : Prop := m.sender = addr ∨ m.receiver = addr

/-- What is booked of a transaction: nothing if it carries a message. -/
def NXTtransaction.booked (tx : NXTtransaction) : Option Movement :=
  match tx.message with
  | none => tx.movement
  | some _ => none

/-- The number that a transaction gives to a key that is new: that of the asset it names, and 0 to the key that only
its transfer looks up. -/
def NXTtransaction.numberFor (tx : NXTtransaction) (key : Text) : Option (BitVec 64) :=
  match tx.attached with
  | none => none
  | some a => (if key = a.assetid then some (calcNxt64bits a.assetid) else none).or
      (if tx.booked.isSome ∧ key = bookKey (calcNxt64bits a.assetid) then some 0 else none)

/-- The number of a key is that of the first transaction that gives it one, and 0 before. -/
def keyNumber (chain : Text → NXTtransaction) (ts : List Text) (key : Text) : Option (BitVec 64) :=
  ts.findSome? fun t => (chain t).numberFor key

/-- The number under which the movements of an asset are booked. -/
def slotNumber (chain : Text → NXTtransaction) (ts : List Text) (assetid : Text) : BitVec 64 :=
  (keyNumber chain ts (bookKey (calcNxt64bits assetid))).getD 0

/-- What an account has entered, with the numbers. -/
def enteredAt (chain : Text → NXTtransaction) (ts : List Text) (addr : Text) : List (BitVec 64 × Text) :=
  ts.flatMap fun t =>
    match (chain t).booked with
    | none => []
    | some m => (turns m.sender m.receiver addr t).map fun t => (slotNumber chain ts m.assetid, t)

section
variable {chain : Text → NXTtransaction} {calls : List Call} {ts : List Text} {t : Text} {tx : NXTtransaction}

theorem order_concat (calls : List Call) (c : Call) :
    order (calls ++ [c]) =
      if c.response.isSome ∧ c.txid ∉ order calls then order calls ++ [c.txid] else order calls := by
  rw [order, List.foldl_append]
  rfl

theorem mem_order (calls : List Call) (t : Text) : t ∈ order calls ↔ t ∈ processed calls := by
  induction calls using List.reverseRecOn with
  | nil => simp [order, processed]
  | append_singleton calls c ih =>
    rw [order_concat]
    cases hresponse : c.response with
    | none =>
      rw [processed_concat_none hresponse, if_neg fun hnew => Bool.false_ne_true hnew.1]
      exact ih
    | some json =>
      rw [processed_concat_some hresponse, Finset.mem_insert, ← ih]
      by_cases hmem : c.txid ∈ order calls
      · rw [if_neg (fun hnew => hnew.2 hmem), or_iff_right_of_imp]
        exact fun heq => heq ▸ hmem
      · rw [if_pos ⟨rfl, hmem⟩, List.mem_append, List.mem_singleton, or_comm]

theorem attached_of_booked {m : Movement} (hm : tx.booked = some m) :
    ∃ a, tx.attached = some a ∧ a.assetid = m.assetid := by
  unfold NXTtransaction.booked at hm
  unfold NXTtransaction.attached
  cases hmessage : tx.message with
  | some message =>
    rw [hmessage] at hm
    cases hm
  | none =>
    rw [hmessage] at hm
    exact asset_of_movement hm

theorem booked_of_attached {a : AssetAttachment} (ha : tx.attached = some a) : tx.booked = tx.movement := by
  rw [NXTtransaction.booked, (asset_of_attached ha).1]

theorem keyNumber_concat (key : Text) :
    keyNumber chain (ts ++ [t]) key = (keyNumber chain ts key).or ((chain t).numberFor key) := by
  rw [keyNumber, List.findSome?_append, List.findSome?_singleton]
  rfl

theorem keyNumber_isSome {key : Text} (ht : t ∈ ts) (h : ((chain t).numberFor key).isSome) :
    (keyNumber chain ts key).isSome := by
  rw [keyNumber, List.findSome?_isSome_iff]
  exact ⟨t, ht, h⟩

theorem numberFor_assetid {a : AssetAttachment} (ha : tx.attached = some a) : (tx.numberFor a.assetid).isSome := by
  rw [NXTtransaction.numberFor, ha]
  dsimp only
  rw [if_pos rfl]
  rfl

theorem numberFor_bookKey {m : Movement} (hm : tx.booked = some m) :
    (tx.numberFor (bookKey (calcNxt64bits m.assetid))).isSome := by
  obtain ⟨a, ha, haid⟩ := attached_of_booked hm
  rw [NXTtransaction.numberFor, ha]
  dsimp only
  rw [haid, hm, if_pos (c := (some m).isSome = true ∧ _) ⟨rfl, rfl⟩]
  cases (if bookKey (calcNxt64bits m.assetid) = m.assetid then some (calcNxt64bits m.assetid) else none) <;> rfl

theorem slotNumber_concat {t' : Text} (ht' : t' ∈ ts) {m : Movement} (hm : (chain t').booked = some m) :
    slotNumber chain (ts ++ [t]) m.assetid = slotNumber chain ts m.assetid := by
  obtain ⟨number, hnumber⟩ := Option.isSome_iff_exists.mp (keyNumber_isSome ht' (numberFor_bookKey hm))
  rw [slotNumber, keyNumber_concat, hnumber, slotNumber, hnumber]
  rfl

theorem enteredAt_concat (addr : Text) :
    enteredAt chain (ts ++ [t]) addr = enteredAt chain ts addr ++
      match (chain t).booked with
      | none => []
      | some m => (turns m.sender m.receiver addr t).map fun tp => (slotNumber chain (ts ++ [t]) m.assetid, tp) := by
  rw [enteredAt, List.flatMap_append, List.flatMap_singleton]
  congr 1
  refine List.flatMap_congr fun t' ht' => ?_
  cases hm : (chain t').booked with
  | none => rfl
  | some m => simp only [slotNumber_concat ht' hm]

/-! ## One transaction -/

/-- The tables and the accounts once the transactions `ts` are processed. -/
structure Chronicle (chain : Text → NXTtransaction) (ts : List Text) (mp : NXThandlerInfo) : Prop where
  txids : ∀ t, (mp.assetTxids t).isSome ↔ t ∈ ts ∧ (chain t).attached ≠ none
  numbers : ∀ key, (mp.assets key).map NXTAsset.assetbits = keyNumber chain ts key
  keeps : mp.Keeps (enteredAt chain ts)

theorem assetbits_eq_getD (mp : NXThandlerInfo) (key : Text) :
    mp.assetbits key = ((mp.assets key).map NXTAsset.assetbits).getD 0 := by
  unfold NXThandlerInfo.assetbits
  cases mp.assets key <;> rfl

theorem chronicle_empty : Chronicle chain [] {} where
  txids t := by simp [Table.empty]
  numbers _ := rfl
  keeps := ⟨fun _ => ⟨rfl, rfl⟩, fun _ _ ha => nomatch ha⟩

theorem Grown.map_assetbits {assets assets' : Table NXTAsset} {key : Text} {bits : BitVec 64}
    (h : Grown assets assets' key bits) (k : Text) :
    (assets' k).map NXTAsset.assetbits =
      ((assets k).map NXTAsset.assetbits).or (if k = key then some bits else none) := by
  cases hold : assets k with
  | some ap =>
    obtain ⟨ap', hap', hsame⟩ := h.kept k ap hold
    rw [hap', Option.map_some, hsame]
    rfl
  | none =>
    by_cases hk : k = key
    · subst hk
      obtain ⟨ap', hap'⟩ := Option.isSome_iff_exists.mp h.here
      rw [hap', Option.map_some, (h.fresh k ap' hold hap').2, if_pos rfl]
      rfl
    · cases hnew : assets' k with
      | none => rw [if_neg hk]; rfl
      | some ap' => exact absurd (h.fresh k ap' hold hnew).1 hk

theorem transferAssetBalance_guids (mp : NXThandlerInfo) (tp : Text) (bits : BitVec 64) (sender receiver : Text)
    (quantity : BitVec 64) :
    (transferAssetBalance mp tp bits sender receiver quantity).guids = mp.guids ∧
      (transferAssetBalance mp tp bits sender receiver quantity).assetTxids = mp.assetTxids := by
  unfold transferAssetBalance moveQuantity
  split
  · exact ⟨rfl, rfl⟩
  · dsimp only
    split
    · exact ⟨rfl, rfl⟩
    · exact ⟨rfl, rfl⟩

/-- A transaction that does not go to the asset branch. -/
theorem Chronicle.skip {mp : NXThandlerInfo} (h : Chronicle chain ts mp) (hnone : (chain t).attached = none) :
    Chronicle chain (ts ++ [t]) mp := by
  have hbooked : (chain t).booked = none := by
    cases hm : (chain t).booked with
    | none => rfl
    | some m =>
      obtain ⟨a, ha, -⟩ := attached_of_booked hm
      rw [hnone] at ha
      cases ha
  refine ⟨fun k => ?_, fun key => ?_, ?_⟩
  · rw [h.txids, List.mem_append, List.mem_singleton, or_and_right, or_iff_left]
    rintro ⟨rfl, hsome⟩
    exact hsome hnone
  · rw [keyNumber_concat, h.numbers, NXTtransaction.numberFor, hnone, Option.or_none]
  · have hentered : enteredAt chain (ts ++ [t]) = enteredAt chain ts := by
      funext addr
      rw [enteredAt_concat, hbooked]
      exact List.append_nil _
    rw [hentered]
    exact h.keeps

/-- The tables and the accounts once the transaction `t` is entered, and before its transfer. -/
structure Entered (chain : Text → NXTtransaction) (ts : List Text) (t : Text) (a : AssetAttachment)
    (mp : NXThandlerInfo) : Prop where
  txids : ∀ k, (mp.assetTxids k).isSome ↔ k ∈ ts ++ [t] ∧ (chain k).attached ≠ none
  numbers : ∀ key, (mp.assets key).map NXTAsset.assetbits =
    (keyNumber chain ts key).or (if key = a.assetid then some (calcNxt64bits a.assetid) else none)
  keeps : mp.Keeps (enteredAt chain ts)

section
variable {mp : NXThandlerInfo} {a : AssetAttachment}

theorem Chronicle.add (h : Chronicle chain ts mp) (ha : (chain t).attached = some a) (hid : CanonicalId a.assetid)
    (hkey : ValidKey 24 t) (hnew : t ∉ ts) :
    ∃ mp₁, addNXTAssettxid mp a.assetid t = (some t, mp₁) ∧ addNXTAssettxid mp₁ a.assetid t = (none, mp₁) ∧
      mp₁.guids = mp.guids ∧ Entered chain ts t a mp₁ := by
  have hnone : mp.assetTxids t = none := by
    rw [← Option.not_isSome_iff_eq_none, h.txids]
    exact fun hmem => hnew hmem.1
  have hgrow := grown_addNXTAssettxid mp.assets hid t
  have hentered : Entered chain ts t a { mp with
      assets := (mp.assets.add 24 a.assetid { assetbits := calcNxt64bits a.assetid }).table.modify a.assetid
        fun ap => { ap with txids := ap.txids ++ [t] }
      assetTxids := Function.update mp.assetTxids t
        (some { assetbits := calcNxt64bits a.assetid, txidbits := calcNxt64bits t }) } := by
    refine ⟨fun k => ?_, fun key => ?_, h.keeps.grow rfl hgrow⟩
    · rw [List.mem_append, List.mem_singleton]
      by_cases hk : k = t
      · subst hk
        simp [ha]
      · dsimp only
        rw [Function.update_of_ne hk, h.txids, or_iff_left hk]
    · rw [← h.numbers]
      exact hgrow.map_assetbits key
  refine ⟨_, addNXTAssettxid_eq_of_new hid hkey hnone, ?_, rfl, hentered⟩
  have ht := (hentered.txids t).mpr ⟨List.mem_append_right _ List.mem_cons_self, by simp [ha]⟩
  exact addNXTAssettxid_of_mem hid hkey hgrow.here ht

theorem Entered.withTxids (h : Entered chain ts t a mp) {txids : Table NXTAssettxid}
    (hsome : ∀ k, (txids k).isSome = (mp.assetTxids k).isSome) :
    Entered chain ts t a { mp with assetTxids := txids } :=
  ⟨fun k => by rw [← h.txids, hsome], h.numbers, ⟨h.keeps.lists, h.keeps.listed⟩⟩

theorem Entered.still (h : Entered chain ts t a mp) (ha : (chain t).attached = some a)
    (hm : (chain t).movement = none) : Chronicle chain (ts ++ [t]) mp := by
  have hbooked : (chain t).booked = none := (booked_of_attached ha).trans hm
  refine ⟨h.txids, fun key => ?_, ?_⟩
  · rw [h.numbers, keyNumber_concat, NXTtransaction.numberFor, ha, hbooked]
    simp
  · have hentered : enteredAt chain (ts ++ [t]) = enteredAt chain ts := by
      funext addr
      rw [enteredAt_concat, hbooked]
      exact List.append_nil _
    rw [hentered]
    exact h.keeps

/-- It moves something. -/
theorem Entered.move {mp' : NXThandlerInfo} (h : Entered chain ts t a mp) (ha : (chain t).attached = some a)
    {m : Movement} (hm : (chain t).movement = some m) (hnamed : m.sender ≠ [] ∧ m.receiver ≠ [])
    (hmp' : mp' = transferAssetBalance mp t (calcNxt64bits a.assetid) m.sender m.receiver m.quantity) :
    Chronicle chain (ts ++ [t]) mp' := by
  have hbooked : (chain t).booked = some m := (booked_of_attached ha).trans hm
  have haid : m.assetid = a.assetid := assetid_of_movement (asset_of_attached ha).2 hm
  obtain ⟨hgrow, hkeeps⟩ := h.keeps.transfer hnamed.1 hnamed.2 t m.quantity hmp'
  have htxids : mp'.assetTxids = mp.assetTxids := by
    rw [hmp']
    exact (transferAssetBalance_guids mp t _ _ _ _).2
  have hnumbers (key : Text) : (mp'.assets key).map NXTAsset.assetbits = keyNumber chain (ts ++ [t]) key := by
    rw [hgrow.map_assetbits key, h.numbers, keyNumber_concat, NXTtransaction.numberFor, ha, hbooked, Option.or_assoc]
    simp
  have hslot : mp'.assetbits (bookKey (calcNxt64bits a.assetid)) = slotNumber chain (ts ++ [t]) m.assetid := by
    rw [assetbits_eq_getD, hnumbers, slotNumber, haid]
  have hentered : enteredAt chain (ts ++ [t]) =
      enteredBy (mp'.assetbits (bookKey (calcNxt64bits a.assetid))) m.sender m.receiver t (enteredAt chain ts) := by
    funext addr
    rw [enteredAt_concat, hbooked, hslot]
    rfl
  exact ⟨fun k => by rw [htxids, h.txids], hnumbers, hentered ▸ hkeeps⟩

/-- A transaction that goes to the asset branch, when it is new. -/
theorem Chronicle.enter (h : Chronicle chain ts mp) (ha : (chain t).attached = some a) (hid : CanonicalId a.assetid)
    (hkey : ValidKey 24 t) (hnew : t ∉ ts)
    (hnamed : ∀ m, (chain t).movement = some m → m.sender ≠ [] ∧ m.receiver ≠ []) :
    Chronicle chain (ts ++ [t]) (processAsset mp t (chain t) a) ∧ (processAsset mp t (chain t) a).guids = mp.guids := by
  obtain ⟨mp₁, hadd, hagain, hguids, hentered⟩ := h.add ha hid hkey hnew
  obtain ⟨txids, hsome, heq⟩ := processAsset_eq (asset_of_attached ha).2 hadd hagain
  have hentered := hentered.withTxids hsome
  rw [heq]
  cases hm : (chain t).movement with
  | none => exact ⟨hentered.still ha hm, hguids⟩
  | some m =>
    refine ⟨hentered.move ha hm (hnamed m hm) rfl, ?_⟩
    dsimp only
    rw [(transferAssetBalance_guids _ t _ _ _ _).1]
    exact hguids

end

/-! ## Runs -/

theorem Chronicle.guarded {mp : NXThandlerInfo} {done : Finset Text} (h : Chronicle chain ts mp)
    (hmem : ∀ t, t ∈ ts ↔ t ∈ done)
    (hguids : ∀ hash, ValidKey 88 hash → ((mp.guids hash).isSome ↔ ∃ t ∈ done, (chain t).hash = some hash)) :
    Guarded chain calls done mp := by
  refine ⟨hguids, fun t _ => ?_, fun t ht a ha => ?_⟩
  · rw [h.txids, hmem]
  · have hnumber := keyNumber_isSome ((hmem t).mpr ht) (numberFor_assetid ha)
    rw [← h.numbers, Option.isSome_map] at hnumber
    exact hnumber

theorem Chronicle.withGuids {mp : NXThandlerInfo} (h : Chronicle chain ts mp) (guids : Table NXTGuid) :
    Chronicle chain ts { mp with guids := guids } := ⟨h.txids, h.numbers, ⟨h.keeps.lists, h.keeps.listed⟩⟩

/-- **The whole run**: the books are those of the processed transactions, in order. -/
theorem chronicle_run (h : Identified chain calls) {p : List Call} (hp : p <+: calls) :
    Chronicle chain (order p) (run p) ∧ Guarded chain calls (processed p) (run p) := by
  induction p using List.reverseRecOn with
  | nil =>
    refine ⟨chronicle_empty, chronicle_empty.guarded (by simp [processed]) fun _ _ => ?_⟩
    simp [Table.empty, processed]
  | append_singleton p c ih =>
    obtain ⟨hchronicle, hguarded⟩ := ih ((List.prefix_append p [c]).trans hp)
    have hc : c ∈ calls := hp.subset (by simp)
    have hrun : run (p ++ [c]) = processNXTtransaction (run p) c.txid c.response := by simp [run]
    rw [hrun, order_concat]
    cases hj : c.response with
    | none =>
      rw [processed_concat_none hj, if_neg fun hnew => Bool.false_ne_true hnew.1]
      exact ⟨hchronicle, hguarded⟩
    | some json =>
      have ht := mem_processed hc hj
      have hread := h.answers c hc json hj
      have hsub : processed p ⊆ processed calls := processed_subset ((List.prefix_append p [c]).trans hp)
      rw [processed_concat_some hj]
      by_cases hdone : c.txid ∈ processed p
      · rw [Finset.insert_eq_of_mem hdone, if_neg fun hnew => hnew.2 ((mem_order p c.txid).mpr hdone),
          hguarded.again h ht hdone hread]
        exact ⟨hchronicle, hguarded⟩
      · have hnew : c.txid ∉ order p := fun hmem => hdone ((mem_order p c.txid).mp hmem)
        obtain ⟨guids, hguids, heq⟩ := hguarded.fresh h hsub ht hdone hread
        rw [if_pos ⟨rfl, hnew⟩, heq]
        have hmem (t : Text) : t ∈ order p ++ [c.txid] ↔ t ∈ insert c.txid (processed p) := by
          rw [List.mem_append, List.mem_singleton, Finset.mem_insert, mem_order, or_comm]
        cases ha : (chain c.txid).attached with
        | none =>
          have hnext := (hchronicle.withGuids guids).skip ha
          exact ⟨hnext, hnext.guarded hmem hguids⟩
        | some a =>
          obtain ⟨hnext, hkept⟩ :=
              (hchronicle.withGuids guids).enter ha (h.id_canonical ht ha).1 (h.txids c.txid ht) hnew
            (h.named c.txid ht)
          exact ⟨hnext, hnext.guarded hmem (hkept ▸ hguids)⟩

/-! ## When the query answers with the history -/

/-- The number of the first asset that an account takes part in. -/
def firstNumber (chain : Text → NXTtransaction) (ts : List Text) (addr : Text) : Option (BitVec 64) :=
  (enteredAt chain ts addr).head?.map Prod.fst

/-- The number that the query looks for; an asset that is not in the table gets 0. -/
def queryNumber (chain : Text → NXTtransaction) (ts : List Text) (assetid : Text) : BitVec 64 :=
  (keyNumber chain ts assetid).getD 0

/-- The first asset of the account has another number, and its movements under the number are all that it has of the
asset; or it has none of the asset. -/
def Answered (chain : Text → NXTtransaction) (calls : List Call) (addr assetid : Text) : Prop :=
  if firstNumber chain (order calls) addr = some (queryNumber chain (order calls) assetid) then
    ∀ t ∈ processed calls, ∀ m, (chain t).movement = some m → m.Party addr → m.assetid ≠ assetid
  else
    ∀ t ∈ processed calls, ∀ m, (chain t).movement = some m → m.Party addr →
      (m.assetid = assetid ↔ (chain t).message = none ∧
        slotNumber chain (order calls) m.assetid = queryNumber chain (order calls) assetid)

theorem mem_turns {sender receiver addr tp t' : Text} :
    t' ∈ turns sender receiver addr tp ↔ t' = tp ∧ (sender = addr ∨ receiver = addr) := by
  unfold turns
  by_cases hsend : sender = addr <;> by_cases hrecv : receiver = addr <;> simp [hsend, hrecv]

theorem mem_turnsWhere {addr : Text} {p : Text → Movement → Bool} :
    t ∈ turnsWhere chain ts addr p ↔ t ∈ ts ∧ ∃ m, (chain t).movement = some m ∧ p t m ∧ m.Party addr := by
  unfold turnsWhere
  rw [List.mem_flatMap]
  constructor
  · rintro ⟨t', ht', hmem⟩
    cases hm : (chain t').movement with
    | none => rw [hm] at hmem; cases hmem
    | some m =>
      rw [hm] at hmem
      dsimp only at hmem
      split at hmem
      · next hp =>
        obtain ⟨rfl, hparty⟩ := mem_turns.mp hmem
        exact ⟨ht', m, hm, hp, hparty⟩
      · cases hmem
  · rintro ⟨ht, m, hm, hp, hparty⟩
    refine ⟨t, ht, ?_⟩
    rw [hm]
    dsimp only
    rw [if_pos hp]
    exact mem_turns.mpr ⟨rfl, hparty⟩

/-- Two selections give the same turns if they agree on the movements of the account. -/
theorem turnsWhere_eq_iff {addr : Text} {p q : Text → Movement → Bool} :
    turnsWhere chain ts addr p = turnsWhere chain ts addr q ↔
      ∀ t ∈ ts, ∀ m, (chain t).movement = some m → m.Party addr → (p t m ↔ q t m) := by
  constructor
  · intro heq t ht m hm hparty
    have hmem : t ∈ turnsWhere chain ts addr p ↔ t ∈ turnsWhere chain ts addr q := by rw [heq]
    rw [mem_turnsWhere, mem_turnsWhere, hm] at hmem
    simpa [ht, hparty] using hmem
  · intro hagree
    refine List.flatMap_congr fun t ht => ?_
    cases hm : (chain t).movement with
    | none => rfl
    | some m =>
      dsimp only
      by_cases hparty : m.Party addr
      · rw [Bool.eq_iff_iff.mpr (hagree t ht m hm hparty)]
      · have hnil : turns m.sender m.receiver addr t = [] :=
          List.eq_nil_iff_forall_not_mem.mpr fun t' ht' => hparty (mem_turns.mp ht').2
        rw [hnil, ite_self, ite_self]

theorem nonNull_inj {l l' : List Text} : nonNull l = nonNull l' ↔ l = l' := by
  unfold nonNull
  by_cases hl : l = [] <;> by_cases hl' : l' = []
  · rw [if_pos hl, if_pos hl', hl, hl']
    exact iff_of_true rfl rfl
  · rw [if_pos hl, if_neg hl']
    exact iff_of_false (fun h => nomatch h) fun h => hl' (h ▸ hl)
  · rw [if_neg hl, if_pos hl']
    exact iff_of_false (fun h => nomatch h) fun h => hl (h ▸ hl')
  · rw [if_neg hl, if_neg hl', Option.some.injEq]

/-- What is entered under a number. -/
theorem entered_under (addr : Text) (bits : BitVec 64) :
    ((enteredAt chain ts addr).filter fun e => e.1 = bits).map Prod.snd =
      turnsWhere chain ts addr fun t m => (chain t).message = none ∧ slotNumber chain ts m.assetid = bits := by
  unfold enteredAt turnsWhere
  rw [List.filter_flatMap, List.map_flatMap]
  refine List.flatMap_congr fun t _ => ?_
  unfold NXTtransaction.booked
  cases hmessage : (chain t).message with
  | some message => cases (chain t).movement <;> simp [hmessage]
  | none =>
    cases (chain t).movement with
    | none => rfl
    | some m =>
      by_cases hbits : slotNumber chain ts m.assetid = bits
      · simp [hbits, hmessage, List.filter_map, Function.comp_def]
      · simp [hbits, List.filter_map, Function.comp_def]

/-- **When the query answers with the history.** -/
theorem getAssetTxlist_iff (h : Identified chain calls) {assetid : Text} (hid : CanonicalId assetid) (addr : Text) :
    (getAssetTxlist (run calls) ((run calls).accts addr) assetid).1 = nonNull (history chain calls addr assetid) ↔
      Answered chain calls addr assetid := by
  have hchronicle := (chronicle_run h (List.prefix_refl calls)).1
  have hempty : nonNull [] = nonNull (turnsWhere chain (order calls) addr fun _ _ => false) := by
    congr 1
    exact (List.eq_nil_iff_forall_not_mem.mpr fun t ht => by simpa using (mem_turnsWhere.mp ht).2).symm
  rw [getAssetTxlist_eq hchronicle.keeps hid.validKey.1, hid.storeKey_eq, assetbits_eq_getD, hchronicle.numbers,
    answerTo, history, Answered, ← firstNumber, ← queryNumber]
  split
  · rw [show (none : Option (List Text)) = nonNull [] from rfl, hempty, nonNull_inj, turnsWhere_eq_iff]
    simp only [mem_order, Bool.false_eq_true, decide_eq_true_eq, false_iff]
  · rw [nonNull_inj, entered_under, turnsWhere_eq_iff]
    simp only [mem_order, decide_eq_true_eq]
    exact forall₄_congr fun t _ m _ => forall_congr' fun _ => iff_comm

/-! ## Without the asset 0 -/

theorem CanonicalId.bookKey_eq {assetid : Text} (h : CanonicalId assetid) (hzero : assetid ≠ "0".toList) :
    bookKey (calcNxt64bits assetid) = assetid :=
  h.lookup.resolve_right fun hno => hzero hno.1

theorem CanonicalId.calc_ne_zero {assetid : Text} (h : CanonicalId assetid) (hzero : assetid ≠ "0".toList) :
    calcNxt64bits assetid ≠ 0 := by
  intro hcalc
  have hsame : calcNxt64bits assetid = calcNxt64bits "0".toList := hcalc
  exact hzero (h.calc_inj ⟨0, by decide, by decide⟩ hsame)

section
variable (h : Identified chain calls) (hzero : ¬ Uses chain calls "0".toList)
include h hzero

/-- Each key has the number of its asset. -/
theorem keyNumber_eq_calc {key : Text} {number : BitVec 64}
    (hnumber : keyNumber chain (order calls) key = some number) :
    number = calcNxt64bits key := by
  obtain ⟨t, ht, hfor⟩ := List.exists_of_findSome?_eq_some hnumber
  rw [mem_order] at ht
  unfold NXTtransaction.numberFor at hfor
  cases ha : (chain t).attached with
  | none => rw [ha] at hfor; cases hfor
  | some a =>
    obtain ⟨hid, huse⟩ := h.id_canonical ht ha
    have hne : a.assetid ≠ "0".toList := fun heq => hzero (heq.subst (motive := Uses chain calls) huse)
    rw [ha] at hfor
    dsimp only at hfor
    rw [hid.bookKey_eq hne] at hfor
    by_cases hkey : key = a.assetid
    · rw [if_pos hkey, Option.some_or] at hfor
      rw [hkey, ← Option.some.inj hfor]
    · rw [if_neg hkey, if_neg fun hboth => hkey hboth.2] at hfor
      cases hfor

theorem slotNumber_eq_calc (ht : t ∈ processed calls) {m : Movement} (hm : (chain t).booked = some m) :
    slotNumber chain (order calls) m.assetid = calcNxt64bits m.assetid ∧ calcNxt64bits m.assetid ≠ 0 ∧
      CanonicalId m.assetid ∧ keyNumber chain (order calls) m.assetid = some (calcNxt64bits m.assetid) := by
  obtain ⟨a, ha, haid⟩ := attached_of_booked hm
  obtain ⟨hid, huse⟩ := h.id_canonical ht ha
  rw [haid] at hid huse
  have hne : m.assetid ≠ "0".toList := fun heq => hzero (heq.subst (motive := Uses chain calls) huse)
  have hsome := keyNumber_isSome ((mem_order calls t).mpr ht) (haid ▸ numberFor_assetid ha)
  obtain ⟨number, hnumber⟩ := Option.isSome_iff_exists.mp hsome
  obtain rfl := keyNumber_eq_calc h hzero hnumber
  refine ⟨?_, hid.calc_ne_zero hne, hid, hnumber⟩
  rw [slotNumber, hid.bookKey_eq hne, hnumber]
  rfl

/-- The query looks for the number of an asset's movements and of no other's. -/
theorem slotNumber_eq_query_iff {assetid : Text} (hid : CanonicalId assetid) (ht : t ∈ processed calls) {m : Movement}
    (hm : (chain t).booked = some m) :
    slotNumber chain (order calls) m.assetid = queryNumber chain (order calls) assetid ↔ m.assetid = assetid := by
  obtain ⟨hslot, hcalc, hcanon, hkey⟩ := slotNumber_eq_calc h hzero ht hm
  rw [hslot, queryNumber]
  cases hnumber : keyNumber chain (order calls) assetid with
  | none =>
    refine iff_of_false hcalc fun hassetid => ?_
    rw [hassetid, hnumber] at hkey
    cases hkey
  | some number =>
    obtain rfl := keyNumber_eq_calc h hzero hnumber
    rw [Option.getD_some]
    exact ⟨hcanon.calc_inj hid, congrArg calcNxt64bits⟩

/-- The first number of an account is that of a transaction it takes part in. -/
theorem firstNumber_eq_query_iff {assetid : Text} (hid : CanonicalId assetid) (addr : Text) :
    firstNumber chain (order calls) addr = some (queryNumber chain (order calls) assetid) ↔
      firstNumber chain (order calls) addr = some (calcNxt64bits assetid) := by
  cases hfirst : firstNumber chain (order calls) addr with
  | none => exact iff_of_false nofun nofun
  | some number =>
    obtain ⟨e, he, rfl⟩ := Option.map_eq_some_iff.mp hfirst
    obtain ⟨t, ht, hmem⟩ := List.mem_flatMap.mp (List.mem_of_head? he)
    rw [mem_order] at ht
    cases hm : (chain t).booked with
    | none =>
      rw [hm] at hmem
      cases hmem
    | some m =>
      rw [hm] at hmem
      obtain ⟨tp, -, rfl⟩ := List.mem_map.mp hmem
      obtain ⟨hslot, -, hcanon, -⟩ := slotNumber_eq_calc h hzero ht hm
      rw [Option.some_inj, Option.some_inj, slotNumber_eq_query_iff h hzero hid ht hm, hslot]
      exact ⟨congrArg calcNxt64bits, hcanon.calc_inj hid⟩

/-- Where nobody uses the asset 0, an account gets its history unless the asset is its first, or one of its
transactions of the asset carries a message. -/
theorem answered_iff {assetid : Text} (hid : CanonicalId assetid) (addr : Text) :
    Answered chain calls addr assetid ↔
      (∀ t ∈ processed calls, ∀ m, (chain t).movement = some m → m.Party addr → m.assetid ≠ assetid) ∨
        firstNumber chain (order calls) addr ≠ some (calcNxt64bits assetid) ∧
          ∀ t ∈ processed calls, ∀ m, (chain t).movement = some m → m.Party addr → m.assetid = assetid →
            (chain t).message = none := by
  have hquery := firstNumber_eq_query_iff h hzero hid addr
  unfold Answered
  by_cases hfirst : firstNumber chain (order calls) addr = some (calcNxt64bits assetid)
  · rw [if_pos (hquery.mpr hfirst), or_iff_left fun hother => hother.1 hfirst]
  · rw [if_neg (mt hquery.mp hfirst), and_iff_right hfirst]
    have hfound : ∀ t ∈ processed calls, ∀ m, (chain t).movement = some m → (chain t).message = none →
        (slotNumber chain (order calls) m.assetid = queryNumber chain (order calls) assetid ↔ m.assetid = assetid) := by
      intro t ht m hm hmessage
      exact slotNumber_eq_query_iff h hzero hid ht (by rw [NXTtransaction.booked, hmessage, hm])
    constructor
    · intro hall
      exact .inr fun t ht m hm hparty heq => ((hall t ht m hm hparty).mp heq).1
    · intro hall t ht m hm hparty
      constructor
      · intro heq
        have hmessage : (chain t).message = none := by
          rcases hall with hnone | hall
          · exact absurd heq (hnone t ht m hm hparty)
          · exact hall t ht m hm hparty heq
        exact ⟨hmessage, (hfound t ht m hm hmessage).mpr heq⟩
      · rintro ⟨hmessage, hslot⟩
        exact (hfound t ht m hm hmessage).mp hslot

end
end

/-- An issue of an asset, and a transfer of another one by the same account. -/
def listCalls : List Call :=
  [⟨"1".toList, some (answer "aa" "0" "5" "1739068987193023818" (attachment "999" "100"))⟩,
    ⟨"2".toList, some (answer "bb" "1" "5" "6" (attachment "998" "40"))⟩]

def listChain : Text → NXTtransaction :=
  chainOf (plain "aa" 0 "5" "1739068987193023818" "999" 100) (plain "bb" 1 "5" "6" "998" 40)

theorem identified_listCalls : Identified listChain listCalls := by
  have hset : processed listCalls = {"1".toList, "2".toList} := by decide +kernel
  refine identified_of_two (fun c hc json hj => ?_) hset rfl rfl rfl rfl ⟨999, by decide, by decide⟩
    ⟨998, by decide, by decide⟩ ⟨by decide, by decide⟩ ⟨by decide, by decide⟩
  simp only [listCalls, List.mem_cons, List.not_mem_nil, or_false] at hc
  rcases hc with rfl | rfl <;> cases hj <;> decide +kernel

/-- The sender of the transfer gets its list, since its first asset is that of the issue. -/
theorem getAssetTxlist_iff_listCalls :
    (getAssetTxlist (run listCalls) ((run listCalls).accts "5".toList) "998".toList).1 = some ["2".toList] ∧
      ((getAssetTxlist (run listCalls) ((run listCalls).accts "5".toList) "998".toList).1 =
        nonNull (history listChain listCalls "5".toList "998".toList) ↔
        Answered listChain listCalls "5".toList "998".toList) :=
  ⟨by decide +kernel, getAssetTxlist_iff identified_listCalls ⟨998, by decide, by decide⟩ _⟩

/-- The receiver does not. -/
theorem not_forall_getAssetTxlist_eq :
    ¬ ∀ (chain : Text → NXTtransaction) (calls : List Call) (addr assetid : Text), Identified chain calls →
      CanonicalId assetid →
        (getAssetTxlist (run calls) ((run calls).accts addr) assetid).1 = nonNull
        (history chain calls addr assetid) := by
  intro hall
  have hlist := hall _ _ "6".toList "998".toList identified_listCalls ⟨998, by decide, by decide⟩
  exact absurd hlist (by decide +kernel)

end NXTServices.Ledger
