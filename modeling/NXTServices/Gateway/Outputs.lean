import NXTServices.Gateway.Scan

/-!
# What a scan makes of the outputs

A scan clears the slots of its transaction before it reads the outputs, so that every output it
recognises is made anew.

* `Output`, `outputs` : the recognised outputs of a decoded transaction;
* `newDeposit`, `creditOutput`, `seeOutput` : the new deposit, the totals, and the whole effect;
* `processVouts_eq` : `process_vouts` on cleared slots sees the outputs one after another;
* `updateCoinValues_eq` : `update_coin_values` clears the slots, and so each of its scans does this.
-/

namespace NXTServices.Gateway
open Json

/-! ## Writes to a transaction -/

section Writes
variable {s : Replica} {t t' : Text} {f : CoinTxid → CoinTxid} {r q : Nat} {g : CoinValue → CoinValue}

theorem tp_modifyTp_self (h : (s.coinTxids t).isSome) : (s.modifyTp t f).tp t = f (s.tp t) := by
  obtain ⟨tp, htp⟩ := Option.isSome_iff_exists.mp h
  simp [Replica.tp, htp]

theorem tp_modifyTp_of_ne (h : t' ≠ t) : (s.modifyTp t f).tp t' = s.tp t' := by
  simp [Replica.tp, Table.modify_of_ne _ _ h]

theorem tp_modifyTp_proj {β : Type} (p : CoinTxid → β) (h : ∀ tp, p (f tp) = p tp) (t' : Text) :
    p ((s.modifyTp t f).tp t') = p (s.tp t') := by
  by_cases ht : t' = t
  · subst ht
    cases htp : s.coinTxids t' with
    | none => simp [Replica.tp, htp]
    | some tp => rw [tp_modifyTp_self (by simp [htp]), h]
  · rw [tp_modifyTp_of_ne ht]

@[simp] theorem tp_modifyVp : (s.modifyVp r g).tp t = s.tp t := rfl

@[simp] theorem tp_log (call : Call) : (s.log call).tp t = s.tp t := rfl

@[simp] theorem vp_modifyTp : (s.modifyTp t f).vp r = s.vp r := rfl

theorem isSome_addTp (h : (s.coinTxids t').isSome) : ((s.addTp t).coinTxids t').isSome := by
  rw [Replica.addTp_coinTxids]
  cases hkey : s.coinTxids (Hashtable.storeKey maxCointxidLen t) with
  | some tp => rwa [Table.add_table_of_some hkey]
  | none =>
    rw [Table.add_table_of_none hkey, Function.update_apply]
    split <;> simp [h]

theorem isSome_addTp_self :
    ((s.addTp t).coinTxids (Hashtable.storeKey maxCointxidLen t)).isSome := by
  rw [Replica.addTp_coinTxids]
  cases hkey : s.coinTxids (Hashtable.storeKey maxCointxidLen t) with
  | some tp => simp [Table.add_table_of_some hkey, hkey]
  | none => simp [Table.add_table_of_none hkey]

/-- A new transaction is as good as none. -/
@[simp] theorem tp_addTp : (s.addTp t).tp t' = s.tp t' := by
  unfold Replica.tp
  rw [Replica.addTp_coinTxids]
  cases hkey : s.coinTxids (Hashtable.storeKey maxCointxidLen t) with
  | some tp => rw [Table.add_table_of_some hkey]
  | none =>
    rw [Table.add_table_of_none hkey, Function.update_apply]
    split
    · next h => simp [h, hkey]
    · rfl

end Writes

/-! ## The recognised outputs -/

structure Output where
  vout : Nat
  value : BitVec 64
  coinaddr : Text
  script : Text
  isinternal : Nat
deriving DecidableEq

section Read
variable (satoshis : Text → BitVec 64) (c : Coin)

/-- The outputs from number `i` on; the first one decides whether the later ones are internal. -/
def outputsFrom : List Json → Nat → Nat → List Output
  | [], _, _ => []
  | obj :: objs, i, isinternal =>
    match readVout i obj with
    | some (coinaddr, script) =>
      let isinternal := if i = 0 ∧ c.internalmarker = coinaddr then 1 else isinternal
      ⟨i, voutValue satoshis obj, coinaddr, script, if 1 < i then isinternal else 0⟩ ::
        outputsFrom objs (i + 1) isinternal
    | none => outputsFrom objs (i + 1) isinternal

def outputs (vouts : Json) : List Output := outputsFrom satoshis c vouts.items 0 0

variable {satoshis c}

theorem mem_outputsFrom {objs : List Json} {i isinternal : Nat} {o : Output}
    (h : o ∈ outputsFrom satoshis c objs i isinternal) :
    ∃ k obj, o.vout = i + k ∧ objs[k]? = some obj ∧ readVout o.vout obj = some (o.coinaddr, o.script) ∧
      voutValue satoshis obj = o.value := by
  induction objs generalizing i isinternal with
  | nil => simp [outputsFrom] at h
  | cons obj objs ih =>
    have htail {isinternal : Nat} (h : o ∈ outputsFrom satoshis c objs (i + 1) isinternal) :
        ∃ k obj', o.vout = i + k ∧ (obj :: objs)[k]? = some obj' ∧
          readVout o.vout obj' = some (o.coinaddr, o.script) ∧ voutValue satoshis obj' = o.value := by
      obtain ⟨k, obj', hv, hobj, hread⟩ := ih h
      exact ⟨k + 1, obj', by omega, hobj, hread⟩
    simp only [outputsFrom] at h
    split at h
    · next hread =>
      rcases List.mem_cons.mp h with rfl | h
      · exact ⟨0, obj, rfl, rfl, hread, rfl⟩
      · exact htail h
    · exact htail h

theorem outputsFrom_sorted (objs : List Json) (i isinternal : Nat) :
    (outputsFrom satoshis c objs i isinternal).Pairwise fun o o' => o.vout < o'.vout := by
  induction objs generalizing i isinternal with
  | nil => exact List.Pairwise.nil
  | cons obj objs ih =>
    simp only [outputsFrom]
    split
    · refine List.pairwise_cons.mpr ⟨fun o ho => ?_, ih ..⟩
      obtain ⟨k, -, hv, -⟩ := mem_outputsFrom ho
      dsimp only
      omega
    · exact ih ..

theorem mem_outputs {vouts : Json} {o : Output} (h : o ∈ outputs satoshis c vouts) :
    ∃ obj, vouts.items[o.vout]? = some obj ∧ readVout o.vout obj = some (o.coinaddr, o.script) ∧
      voutValue satoshis obj = o.value := by
  obtain ⟨k, obj, hv, hobj, hread⟩ := mem_outputsFrom h
  rw [Nat.zero_add] at hv
  exact ⟨obj, hv ▸ hobj, hread⟩

theorem vout_lt_of_mem_outputs {vouts : Json} {o : Output} (h : o ∈ outputs satoshis c vouts) :
    o.vout < vouts.items.length := by
  obtain ⟨obj, hobj, -⟩ := mem_outputs h
  exact (List.getElem?_eq_some_iff.mp hobj).1

theorem outputs_sorted (vouts : Json) :
    (outputs satoshis c vouts).Pairwise fun o o' => o.vout < o'.vout := outputsFrom_sorted ..

end Read

/-! ## An output that is made anew -/

/-- The address the output is a deposit to, once it is confirmed. -/
def dueMsig (s : Replica) (isconfirmed : Nat) (o : Output) : Option MultisigAddr :=
  if isconfirmed = 0 then none else searchMultisigAddrs s o.coinaddr

/-- A confirmed deposit is credited, and charged when the transaction is marked as transferred. -/
def creditOutput (c : Coin) (s : Replica) (t : Text) (isconfirmed : Nat) (o : Output) : Replica :=
  match dueMsig s isconfirmed o with
  | none => s
  | some msig =>
    if (s.tp t).nxtXferbits = 0#64 then depositNXTacct c s msig.nxtAddr o.value
    else
      depositTransferNXTacct c (depositNXTacct c s msig.nxtAddr o.value)
        (expandNxt64bits (calcNxt64bits msig.nxtAddr)) o.value t o.vout

/-- The mark of a transferred transaction, on a confirmed deposit. -/
def newNXT (c : Coin) (s : Replica) (t : Text) (am : BitVec 64) (msig : MultisigAddr) :
    CrosschainNXTinfo where
  confirmedAMbits :=
    if (s.tp t).confirmedAMbits = 0#64 then (if assigned c (calcNxt64bits msig.nxtAddr) then am else 0#64)
    else (s.tp t).confirmedAMbits
  confirmed := if (s.tp t).nxtXferbits = 0#64 then 0 else 1
  pending := if (s.tp t).nxtXferbits = 0#64 then 0 else 1

def newDeposit (c : Coin) (s : Replica) (t : Text) (isconfirmed : Nat) (o : Output) (am : BitVec 64) :
    CrosschainInfo where
  nxt64bits := ((searchMultisigAddrs s o.coinaddr).map fun msig => calcNxt64bits msig.nxtAddr).getD 0#64
  value := o.value
  assetoshis := o.value
  msig := searchMultisigAddrs s o.coinaddr
  nxtXfermask := 1
  coinConfirmed := if (dueMsig s isconfirmed o).isSome then isconfirmed else 0
  isinternal := o.isinternal
  nxt := ((dueMsig s isconfirmed o).map (newNXT c s t am)).getD {}

def newOutput (t : Text) (isconfirmed : Nat) (o : Output) (xp : CrosschainInfo) : CoinValue where
  value := o.value
  xp := some xp
  parent := t
  parentVout := o.vout
  script := some o.script
  isconfirmed := isconfirmed
  isinternal := o.isinternal
  coinaddr := safecopy o.coinaddr maxCoinaddrLen

def fillSlot (o : Output) (r : Nat) (tp : CoinTxid) : CoinTxid :=
  { tp with
    hasinternal := tp.hasinternal + o.isinternal
    vouts := tp.vouts.map fun slots => slots.set o.vout (some r) }

/-- The effect of an output whose slot is null. -/
def seeOutput (c : Coin) (t : Text) (isconfirmed : Nat) (am : Nat → BitVec 64) (s : Replica)
    (o : Output) : Replica :=
  { creditOutput c s t isconfirmed o with
    coinTxids := s.coinTxids.modify t (fillSlot o s.values.next)
    values := s.values.alloc (newOutput t isconfirmed o (newDeposit c s t isconfirmed o (am o.vout)))
    xps := if (dueMsig s isconfirmed o).isSome then s.xps ++ [s.values.next] else s.xps }

section Fresh
variable {c : Coin} {t : Text} {isconfirmed : Nat} {am : Nat → BitVec 64} {s : Replica} {o : Output}

theorem updateCrosschainInfo_fresh (r : Nat) :
    updateCrosschainInfo c s t r o.vout isconfirmed {} o.value o.coinaddr (am o.vout) =
      ({ creditOutput c s t isconfirmed o with
          xps := if (dueMsig s isconfirmed o).isSome then s.xps ++ [r] else s.xps },
        { newDeposit c s t isconfirmed o (am o.vout) with isinternal := 0 }) := by
  unfold updateCrosschainInfo newDeposit creditOutput dueMsig
  cases hm : searchMultisigAddrs s o.coinaddr with
  | none => by_cases hc : isconfirmed = 0 <;> simp [hc]
  | some msig =>
    by_cases hc : isconfirmed = 0
    · simp [hc]
    · by_cases hx : ((s.coinTxids t).getD {}).nxtXferbits = 0#64 <;>
        by_cases ha : ((s.coinTxids t).getD {}).confirmedAMbits = 0#64 <;>
        simp [hc, hx, ha, addConfirmedDeposit, newNXT, depositNXTacct, depositTransferNXTacct,
          updateBalanceInfo, Replica.tp, Replica.log, Replica.modifyAcct, xpNXTaddr]

theorem creditOutput_values (a : Arena CoinValue) :
    creditOutput c { s with values := a } t isconfirmed o =
      { creditOutput c s t isconfirmed o with values := a } := by
  unfold creditOutput
  rw [show dueMsig { s with values := a } isconfirmed o = dueMsig s isconfirmed o from rfl]
  cases dueMsig s isconfirmed o with
  | none => rfl
  | some msig => by_cases hx : ((s.coinTxids t).getD {}).nxtXferbits = 0#64 <;> simp [Replica.tp, hx] <;> rfl

theorem creditOutput_frame :
    creditOutput c s t isconfirmed o =
      { s with
        funds := (creditOutput c s t isconfirmed o).funds
        accts := (creditOutput c s t isconfirmed o).accts
        calls := (creditOutput c s t isconfirmed o).calls } := by
  unfold creditOutput
  cases dueMsig s isconfirmed o with
  | none => rfl
  | some msig => dsimp only; split <;> rfl

theorem updateCoinValue_fresh :
    (updateCoinValue c o.isinternal isconfirmed s t o.vout none o.value o.coinaddr o.script (am o.vout)).1.modifyTp t
        (fun tp => { tp with vouts := tp.vouts.map fun slots => slots.set o.vout (some (updateCoinValue c
          o.isinternal isconfirmed s t o.vout none o.value o.coinaddr o.script (am o.vout)).2) }) =
      seeOutput c t isconfirmed am s o := by
  unfold updateCoinValue
  have hs (g : CoinValue → CoinValue) :
      (s.allocVp {}).modifyVp s.values.next g = { s with values := s.values.alloc (g {}) } := by
    simp only [Replica.allocVp, Replica.modifyVp, Arena.alloc_modify]
  simp only [Option.getD_none, Option.isNone_none, if_true, hs]
  rw [show ∀ v : CoinValue, (Replica.vp { s with values := s.values.alloc v } s.values.next) = v from
    fun v => Arena.alloc_cell_next]
  simp only [Option.getD_none, updateCrosschainInfo_fresh, creditOutput_values]
  unfold seeOutput
  rw [creditOutput_frame]
  simp only [Replica.modifyTp, Replica.modifyVp, Arena.alloc_modify, Table.modify_modify, Nat.zero_add]
  rfl

/-! ### The transaction afterwards -/

theorem tp_seeOutput (t' : Text) :
    (seeOutput c t isconfirmed am s o).tp t' = (s.modifyTp t (fillSlot o s.values.next)).tp t' := rfl

theorem slot_fillSlot {tp : CoinTxid} {r : Nat} (j : Nat) :
    (fillSlot o r tp).slot j =
      if j = o.vout ∧ j < (tp.vouts.getD []).length then some r else tp.slot j := by
  unfold fillSlot CoinTxid.slot
  cases hv : tp.vouts with
  | none => simp
  | some slots =>
    simp only [Option.map_some, Option.getD_some, List.getElem?_set]
    by_cases hj : o.vout = j
    · subst hj
      by_cases hlt : o.vout < slots.length <;> simp [hlt]
    · simp [hj, Ne.symm hj]

theorem length_fillSlot {tp : CoinTxid} {r : Nat} :
    ((fillSlot o r tp).vouts.getD []).length = (tp.vouts.getD []).length := by
  unfold fillSlot
  cases tp.vouts <;> simp

theorem slot_seeOutput_of_ne {t' : Text} {j : Nat} (h : j ≠ o.vout ∨ t' ≠ t) :
    ((seeOutput c t isconfirmed am s o).tp t').slot j = (s.tp t').slot j := by
  rw [tp_seeOutput]
  rcases h with hj | ht
  · exact tp_modifyTp_proj (·.slot j) (fun tp => by rw [slot_fillSlot, if_neg fun h => hj h.1]) t'
  · rw [tp_modifyTp_of_ne ht]

theorem nxtXferbits_seeOutput (t' : Text) :
    ((seeOutput c t isconfirmed am s o).tp t').nxtXferbits = (s.tp t').nxtXferbits :=
  tp_modifyTp_proj CoinTxid.nxtXferbits (f := fillSlot o s.values.next) (fun _ => rfl) t'

theorem length_seeOutput (t' : Text) :
    (((seeOutput c t isconfirmed am s o).tp t').vouts.getD []).length =
      ((s.tp t').vouts.getD []).length :=
  tp_modifyTp_proj (fun tp => (tp.vouts.getD []).length) (f := fillSlot o s.values.next)
    (fun _ => length_fillSlot) t'

theorem dueMsig_eq_some {msig : MultisigAddr} (h : dueMsig s isconfirmed o = some msig) :
    searchMultisigAddrs s o.coinaddr = some msig := by
  unfold dueMsig at h
  split at h
  · cases h
  · exact h

theorem mem_xps_seeOutput {r : Nat} (h : r ∈ (seeOutput c t isconfirmed am s o).xps) :
    r ∈ s.xps ∨ r = s.values.next ∧ ∃ msig, dueMsig s isconfirmed o = some msig := by
  change r ∈ if (dueMsig s isconfirmed o).isSome then s.xps ++ [s.values.next] else s.xps at h
  split at h
  · next hdue =>
    rcases List.mem_append.mp h with h | h
    · exact .inl h
    · exact .inr ⟨List.mem_singleton.mp h, Option.isSome_iff_exists.mp hdue⟩
  · exact .inl h

theorem msigs_seeOutput : (seeOutput c t isconfirmed am s o).msigs = s.msigs := by
  unfold seeOutput
  rw [creditOutput_frame]

end Fresh

/-! ## The whole list of outputs -/

section Loop
variable {satoshis : Text → BitVec 64} {c : Coin} {t : Text} {isconfirmed : Nat} {am : Nat → BitVec 64}

theorem voutsLoop_eq {objs : List Json} {i isinternal : Nat} {s : Replica}
    (hnone : ∀ j, i ≤ j → (s.tp t).slot j = none) :
    voutsLoop satoshis c t isconfirmed am objs i isinternal s =
      (outputsFrom satoshis c objs i isinternal).foldl (seeOutput c t isconfirmed am) s := by
  induction objs generalizing i isinternal s with
  | nil => rfl
  | cons obj objs ih =>
    simp only [voutsLoop, outputsFrom]
    cases hread : readVout i obj with
    | none => exact ih fun j hj => hnone j (by omega)
    | some v =>
      obtain ⟨coinaddr, script⟩ := v
      simp only [hnone i le_rfl, List.foldl_cons]
      generalize (if i = 0 ∧ c.internalmarker = coinaddr then 1 else isinternal) = isinternal
      let o : Output := ⟨i, voutValue satoshis obj, coinaddr, script, if 1 < i then isinternal else 0⟩
      rw [← ih fun j hj => ?_]
      · exact congrArg _ (updateCoinValue_fresh (o := o))
      · rw [slot_seeOutput_of_ne (.inl (by dsimp only; omega)), hnone j (by omega)]

/-- The transaction once its slots are cleared. -/
def clearSlots (n : Nat) (tp : CoinTxid) : CoinTxid :=
  { tp with numvouts := n, vouts := reallocSlots tp.vouts 0 n }

theorem slot_clearSlots (n : Nat) (tp : CoinTxid) (j : Nat) : (clearSlots n tp).slot j = none := by
  unfold clearSlots reallocSlots CoinTxid.slot
  dsimp only
  split
  · rfl
  · simp [List.getElem?_replicate]
    split_ifs <;> rfl

theorem length_clearSlots (n : Nat) (tp : CoinTxid) : ((clearSlots n tp).vouts.getD []).length = n := by
  unfold clearSlots reallocSlots
  dsimp only
  split
  · next h => simp [h.1]
  · simp

/-- **A scan sees the recognised outputs one after another**, once `numvouts` has been reset. -/
theorem processVouts_eq {s : Replica} (hreset : (s.tp t).numvouts = 0) (htp : (s.coinTxids t).isSome) (vouts : Json) :
    processVouts satoshis c s t isconfirmed (some vouts) am =
      (outputs satoshis c vouts).foldl (seeOutput c t isconfirmed am)
        (s.modifyTp t (clearSlots vouts.items.length)) := by
  have hclear : s.modifyTp t (fun tp =>
      { tp with
        numvouts := vouts.items.length
        vouts := reallocSlots tp.vouts tp.numvouts vouts.items.length }) =
      s.modifyTp t (clearSlots vouts.items.length) := by
    obtain ⟨tp, hkey⟩ := Option.isSome_iff_exists.mp htp
    have : tp.numvouts = 0 := by simpa [Replica.tp, hkey] using hreset
    unfold Replica.modifyTp Table.modify
    rw [hkey, Option.map_some, Option.map_some, clearSlots, this]
  simp only [processVouts, hclear]
  exact voutsLoop_eq fun j _ => by rw [tp_modifyTp_self htp, slot_clearSlots]

/-- The transaction once a scan has reset it. -/
def resetTp (k : Sighting) (tp : CoinTxid) : CoinTxid :=
  { tp with numvouts := 0, numvins := 0, height := int32 k.blockheight }

/-- The slots are cleared and the outputs seen. -/
def seeOutputs (satoshis : Text → BitVec 64) (c : Coin) (t : Text) (k : Sighting) (vouts : Option Json)
    (s : Replica) : Replica :=
  match vouts with
  | none => s
  | some vouts =>
    (outputs satoshis c vouts).foldl (seeOutput c t (k.isconfirmed c) k.am)
      (s.modifyTp t (clearSlots vouts.items.length))

theorem updateCoinValues_eq {s : Replica} (htp : (s.coinTxids t).isSome) (k : Sighting) (json : Json) :
    updateCoinValues satoshis c s t k (some json) =
      processVins (seeOutputs satoshis c t k (getObjectItem json "vout".toList) (s.modifyTp t (resetTp k))) t
        (k.isconfirmed c) (getObjectItem json "vin".toList) := by
  show processVins (processVouts satoshis c (s.modifyTp t (resetTp k)) t (k.isconfirmed c)
    (getObjectItem json "vout".toList) k.am) t (k.isconfirmed c) (getObjectItem json "vin".toList) = _
  congr 1
  cases getObjectItem json "vout".toList with
  | none => rfl
  | some vouts =>
    refine processVouts_eq ?_ ?_ vouts
    · rw [tp_modifyTp_self htp]
      rfl
    · rw [Replica.modifyTp_coinTxids, Table.isSome_modify]
      exact htp

end Loop
end NXTServices.Gateway
