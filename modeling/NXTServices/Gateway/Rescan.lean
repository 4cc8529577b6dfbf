import NXTServices.Gateway.Charges

/-!
# Scanning a transaction again

* `listing`, `spentMark` : the listed deposits, and what the inputs wrote on an output;
* `spender` : the input that is the last to name an output;
* `spentMark_vinsLoop` : the inputs write the spender on every output they name;
* `SameBooks`, `rescan_iff` : **a rescan keeps the books** exactly when no output pays a bound address.
-/

namespace NXTServices.Gateway
open Json hiding true false

/-- The listed deposits, as outputs. -/
def listing (s : Replica) : List (Text × Nat) := s.xps.map fun r => ((s.vp r).parent, (s.vp r).parentVout)

/-- `spent` and `spentVin` of a recorded output. -/
def spentMark (s : Replica) (t : Text) (i : Nat) : Option (Option Text × Nat) :=
  ((s.tp t).slot i).map fun r => ((s.vp r).spent, (s.vp r).spentVin)

/-! ## Inputs -/

/-- The last of the inputs, from number `i` on, that names the output. -/
def spender (u : Text) (j : Nat) : List Json → Nat → Option Nat
  | [], _ => none
  | obj :: objs, i => (spender u j objs (i + 1)).or (if readVin obj = some (u, (j : Int)) then some i else none)

/-- The mark of an output once its spender is known. -/
def markedWith (t : Text) (spender : Option Nat) (mark : Option Text × Nat) : Option Text × Nat :=
  match spender with
  | some i => (some t, i)
  | none => mark

theorem markedWith_markedWith (t : Text) (spender : Option Nat) (mark : Option Text × Nat) :
    markedWith t spender (markedWith t spender mark) = markedWith t spender mark := by
  cases spender <;> rfl

section Inputs
variable {s s' : Replica} {t : Text} {isconfirmed : Nat}

theorem spentMark_congr (hslot : ∀ u j, (s'.tp u).slot j = (s.tp u).slot j) (hvp : s'.values = s.values) (u : Text)
    (j : Nat) : spentMark s' u j = spentMark s u j := by
  unfold spentMark Replica.vp
  rw [hslot, hvp]

theorem Replica.WF.spentMark_eq (hwf : s.WF) {u : Text} {j : Nat} (hslot : (s'.tp u).slot j = (s.tp u).slot j)
    (hvp : ∀ q < s.values.next, s'.vp q = s.vp q) : spentMark s' u j = spentMark s u j := by
  unfold spentMark
  rw [hslot]
  cases hq : (s.tp u).slot j with
  | none => rfl
  | some q =>
    have hlt := (hwf.made q (hwf.slot u j q hq).1).1
    rw [Option.map_some, Option.map_some, hvp q hlt]

theorem numvouts_flagInternal (r : Nat) (u : Text) : ((flagInternal s t r).tp u).numvouts = (s.tp u).numvouts := by
  unfold flagInternal
  split
  · exact tp_modifyTp_proj CoinTxid.numvouts (fun _ => by rfl) u
  · rfl

/-- The write of an input goes to one output, since slots do not share outputs. -/
theorem spentMark_markSpent (hwf : s.WF) (hconfirmed : isconfirmed ≠ 0) {txid : Text} {v r i : Nat}
    (hslot : (s.tp txid).slot v = some r) (u : Text) (j : Nat) :
    spentMark (markSpent s t i r isconfirmed) u j =
      if u = txid ∧ j = v then some (some t, i) else spentMark s u j := by
  have hkeep : ((markSpent s t i r isconfirmed).tp u).slot j = (s.tp u).slot j := (markSpent_frame i r).slot u j
  unfold spentMark
  rw [hkeep]
  have hvp (q : Nat) : (markSpent s t i r isconfirmed).vp q =
      if q = r then { s.vp q with spent := some t, spentVin := i } else s.vp q := by
    unfold markSpent Replica.vp
    rw [Replica.modifyVp_values, Arena.modify_cell, Replica.modifyTp_values, if_pos hconfirmed]
    split
    · next h => rw [h]
    · rfl
  cases hq : (s.tp u).slot j with
  | none =>
    rw [if_neg]
    · rfl
    · rintro ⟨rfl, rfl⟩
      rw [hslot] at hq
      cases hq
  | some q =>
    rw [Option.map_some, Option.map_some, hvp]
    by_cases heq : u = txid ∧ j = v
    · obtain ⟨rfl, rfl⟩ := heq
      obtain rfl := Option.some.inj (hslot.symm.trans hq)
      rw [if_pos rfl, if_pos ⟨rfl, rfl⟩]
    · have hne : q ≠ r := by
        rintro rfl
        have h₁ := hwf.slot u j q hq
        have h₂ := hwf.slot txid v q hslot
        exact heq ⟨h₁.2.1.symm.trans h₂.2.1, h₁.2.2.symm.trans h₂.2.2⟩
      rw [if_neg hne, if_neg heq]

/-- **An input** marks the output it names, when the transaction of that output has been scanned. -/
theorem spentMark_processVin (hwf : s.WF) (hconfirmed : isconfirmed ≠ 0) {txid : Text} {vout : Int} {i : Nat}
    (h : processVin s t isconfirmed i txid vout = some s') (u : Text) (j : Nat) :
    spentMark s' u j =
      (if u = txid ∧ (j : Int) = vout ∧ j < (s.tp u).numvouts then (spentMark s u j).map fun _ => (some t, i)
      else spentMark s u j) ∧
      (s'.tp u).numvouts = (s.tp u).numvouts := by
  obtain ⟨rfl, hnone⟩ | ⟨v, r, rfl, hslot, rfl⟩ := processVin_eq h
  · refine ⟨?_, rfl⟩
    split
    · next hnamed =>
      rw [spentMark, hnamed.1, hnone j]
      rfl
    · rfl
  · have hframe : Frame s (flagInternal s t r) := flagInternal_frame r
    have hflag := spentMark_congr hframe.slot (flagInternal_values r)
    obtain ⟨-, hparent, hvout⟩ := hwf.slot txid v r hslot
    by_cases hlt : v < (s.tp txid).numvouts
    · rw [if_pos ⟨hlt, hvout, hparent⟩]
      have hwf' : (flagInternal s t r).WF := hwf.of_shape (.of_frame hframe)
      constructor
      · rw [spentMark_markSpent hwf' hconfirmed (by rw [hframe.slot, hslot]), hflag]
        by_cases hnamed : u = txid ∧ j = v
        · obtain ⟨rfl, rfl⟩ := hnamed
          rw [if_pos ⟨rfl, rfl⟩, if_pos ⟨rfl, rfl, hlt⟩, spentMark, hslot]
          rfl
        · rw [if_neg hnamed, if_neg fun h => hnamed ⟨h.1, by omega⟩]
      · rw [← numvouts_flagInternal (s := s) (t := t) r u]
        exact tp_modifyTp_proj CoinTxid.numvouts (fun _ => by rfl) u
    · rw [if_neg fun h => hlt h.1, hflag, if_neg]
      · exact ⟨rfl, numvouts_flagInternal r u⟩
      · rintro ⟨rfl, hj, hjlt⟩
        exact hlt (by omega)

theorem ite_markedWith_none (p : Prop) [Decidable p] (mark : Option (Option Text × Nat)) :
    (if p then mark.map (markedWith t none) else mark) = mark := by
  have hid : markedWith t none = id := by
    funext mark
    rfl
  rw [hid, Option.map_id]
  split <;> rfl

theorem spender_cons_of_ne {u : Text} {j : Nat} {obj : Json} (h : readVin obj ≠ some (u, (j : Int))) (objs : List Json)
    (i : Nat) : spender u j (obj :: objs) i = spender u j objs (i + 1) := by
  simp [spender, h]

/-- **The inputs** write the spender on every output they name. -/
theorem spentMark_vinsLoop (hwf : s.WF) (hconfirmed : isconfirmed ≠ 0) {objs : List Json} {i : Nat}
    (h : vinsLoop t isconfirmed objs i s = some s') (u : Text) (j : Nat) :
    spentMark s' u j =
      (if j < (s.tp u).numvouts then (spentMark s u j).map (markedWith t (spender u j objs i)) else spentMark s u j) ∧
      (s'.tp u).numvouts = (s.tp u).numvouts := by
  induction objs generalizing i s with
  | nil =>
    obtain rfl := Option.some.inj h
    exact ⟨(ite_markedWith_none _ _).symm, rfl⟩
  | cons obj objs ih =>
    simp only [vinsLoop] at h
    cases hread : readVin obj with
    | none =>
      rw [hread] at h
      rw [spender_cons_of_ne (by simp [hread])]
      exact ih hwf h
    | some target =>
      obtain ⟨txid, vout⟩ := target
      rw [hread] at h
      obtain ⟨mid, hmid, hrest⟩ := Option.bind_eq_some_iff.mp h
      have hwf' : mid.WF := hwf.of_shape (.of_frame (processVin_frame hmid))
      obtain ⟨hmark, hnum⟩ := spentMark_processVin hwf hconfirmed hmid u j
      obtain ⟨hmark', hnum'⟩ := ih hwf' hrest
      refine ⟨?_, hnum'.trans hnum⟩
      rw [hmark', hnum]
      by_cases hlt : j < (s.tp u).numvouts
      · rw [if_pos hlt, if_pos hlt, hmark]
        by_cases heq : u = txid ∧ (j : Int) = vout
        · obtain ⟨rfl, rfl⟩ := heq
          rw [if_pos ⟨rfl, rfl, hlt⟩, Option.map_map]
          congr 1
          funext mark
          simp only [Function.comp_apply, spender, hread, if_true]
          cases spender u j objs (i + 1) <;> rfl
        · rw [if_neg fun h => heq ⟨h.1, h.2.1⟩]
          have hne : readVin obj ≠ some (u, (j : Int)) := by
            rw [hread]
            rintro h
            cases h
            exact heq ⟨rfl, rfl⟩
          rw [spender_cons_of_ne hne]
      · rw [if_neg hlt, if_neg hlt, hmark, if_neg fun h => hlt h.2.2]

/-- The spender among the inputs of a transaction; a coinbase has none. -/
def spenderOf (u : Text) (j : Nat) (vins : Option Json) : Option Nat :=
  match vins with
  | none => none
  | some vins =>
    match vins.items with
    | [obj] => if (readCoinbase obj).isSome then none else spender u j [obj] 0
    | objs => spender u j objs 0

theorem addCoinbase_slot (hwf : s.WF) (coinbase : Text) (u : Text) (j : Nat) :
    spentMark (addCoinbase s t coinbase) u j = spentMark s u j ∧
      ((addCoinbase s t coinbase).tp u).numvouts = (s.tp u).numvouts := by
  constructor
  · exact hwf.spentMark_eq ((addCoinbase_frame hwf.free coinbase).slot u j) fun q hlt => Arena.alloc_cell_of_lt hlt
  · exact tp_modifyTp_proj CoinTxid.numvouts (fun _ => by rfl) u

theorem spentMark_processVins (hwf : s.WF) (hconfirmed : isconfirmed ≠ 0) {vins : Option Json}
    (h : processVins s t isconfirmed vins = some s') (u : Text) (j : Nat) :
    spentMark s' u j =
      (if j < (s.tp u).numvouts then (spentMark s u j).map (markedWith t (spenderOf u j vins)) else spentMark s u j) ∧
      (s'.tp u).numvouts = (s.tp u).numvouts := by
  have hid : (if j < (s.tp u).numvouts then (spentMark s u j).map (markedWith t none) else spentMark s u j) =
      spentMark s u j := ite_markedWith_none _ _
  unfold processVins at h
  cases vins with
  | none =>
    obtain rfl := Option.some.inj h
    exact ⟨hid.symm, rfl⟩
  | some vins =>
    unfold spenderOf at hid ⊢
    dsimp only at h hid ⊢
    generalize vins.items = objs at h hid ⊢
    have hframe : Frame s (s.modifyTp t fun tp =>
        { tp with numvins := objs.length, vins := reallocSlots tp.vins tp.numvins objs.length }) :=
      .modifyTp t (fun _ => rfl) fun _ _ => rfl
    have hmark₁ := spentMark_congr hframe.slot rfl
    have hnum₁ (u : Text) := tp_modifyTp_proj (s := s) (t := t) CoinTxid.numvouts (f := fun tp =>
        { tp with numvins := objs.length, vins := reallocSlots tp.vins tp.numvins objs.length }) (fun _ => by rfl) u
    have hwf₁ := hwf.of_shape (.of_frame hframe)
    rw [← hmark₁, ← hnum₁] at hid ⊢
    match objs with
    | [] => exact spentMark_vinsLoop hwf₁ hconfirmed h u j
    | [obj] =>
      dsimp only at h ⊢
      cases hread : readCoinbase obj with
      | none =>
        rw [hread] at h
        exact spentMark_vinsLoop hwf₁ hconfirmed h u j
      | some coinbase =>
        rw [hread] at h
        obtain rfl := Option.some.inj h
        obtain ⟨hmark, hnum⟩ := addCoinbase_slot (t := t) hwf₁ coinbase u j
        rw [Option.isSome_some, if_pos rfl, hid]
        exact ⟨hmark, hnum⟩
    | obj :: obj' :: objs => exact spentMark_vinsLoop hwf₁ hconfirmed h u j

end Inputs

/-! ## Outputs -/

/-- The mark of an output of a transaction that was just scanned. -/
def freshMark (os : List Output) (j : Nat) : Option (Option Text × Nat) :=
  if ∃ o ∈ os, o.vout = j then some (none, 0) else none

section Outputs
variable {satoshis : Text → BitVec 64} {c : Coin} {s s' : Replica} {t : Text} {isconfirmed : Nat} {am : Nat → BitVec 64}

theorem spentMark_seeOutput (hwf : s.WF) (known : (s.coinTxids t).isSome) {o : Output}
    (room : o.vout < ((s.tp t).vouts.getD []).length) (u : Text) (j : Nat) :
    spentMark (seeOutput c t isconfirmed am s o) u j =
      if u = t ∧ j = o.vout then some (none, 0) else spentMark s u j := by
  unfold spentMark
  by_cases heq : u = t ∧ j = o.vout
  · obtain ⟨rfl, rfl⟩ := heq
    rw [if_pos ⟨rfl, rfl⟩, tp_seeOutput, tp_modifyTp_self known, slot_fillSlot, if_pos ⟨rfl, room⟩, Option.map_some,
      vp_seeOutput, if_pos rfl]
    rfl
  · have hne : j ≠ o.vout ∨ u ≠ t := (not_and_or.mp heq).symm
    rw [if_neg heq]
    apply hwf.spentMark_eq (slot_seeOutput_of_ne hne)
    intro q hlt
    rw [vp_seeOutput, if_neg hlt.ne]

theorem spentMark_foldl (hwf : s.WF) (known : (s.coinTxids t).isSome) {os : List Output}
    (room : ∀ o ∈ os, o.vout < ((s.tp t).vouts.getD []).length) (u : Text) (j : Nat) :
    spentMark (os.foldl (seeOutput c t isconfirmed am) s) u j =
      (if u = t ∧ ∃ o ∈ os, o.vout = j then some (none, 0) else spentMark s u j) ∧
      ((os.foldl (seeOutput c t isconfirmed am) s).tp u).numvouts = (s.tp u).numvouts := by
  induction os generalizing s with
  | nil => simp
  | cons o os ih =>
    rw [List.foldl_cons]
    have known' : ((seeOutput c t isconfirmed am s o).coinTxids t).isSome := by
      show (s.coinTxids.modify _ _ _).isSome
      rwa [Table.isSome_modify]
    obtain ⟨hmark, hnum⟩ := ih (hwf.output isconfirmed am o known) known' fun o' ho' => by
      rw [length_seeOutput]
      exact room o' (by simp [ho'])
    have hnum₁ : ((seeOutput c t isconfirmed am s o).tp u).numvouts = (s.tp u).numvouts :=
      tp_modifyTp_proj CoinTxid.numvouts (f := fillSlot o s.values.next) (fun _ => rfl) u
    refine ⟨?_, hnum.trans hnum₁⟩
    rw [hmark, spentMark_seeOutput hwf known (room o (by simp))]
    by_cases hu : u = t
    · by_cases hj : j = o.vout
      · subst hj
        simp [hu]
      · simp [hu, hj, Ne.symm hj]
    · simp [hu]

theorem spentMark_clear_of_ne {u : Text} (hu : u ≠ t) (n j : Nat) :
    spentMark (s.modifyTp t (clearSlots n)) u j = spentMark s u j := by
  unfold spentMark
  rw [tp_modifyTp_of_ne hu]
  rfl

theorem spentMark_clear_self (known : (s.coinTxids t).isSome) (n j : Nat) :
    spentMark (s.modifyTp t (clearSlots n)) t j = none := by
  unfold spentMark
  rw [tp_modifyTp_self known, slot_clearSlots]
  rfl

/-- The marks after the outputs: those of the transaction are fresh. -/
theorem spentMark_seeOutputs (hwf : s.WF) (known : (s.coinTxids t).isSome) (k : Sighting) (vouts : Option Json)
    (u : Text) (j : Nat) :
    spentMark (seeOutputs satoshis c t k vouts s) u j =
      (match vouts with
      | some vouts => if u = t then freshMark (outputs satoshis c vouts) j else spentMark s u j
      | none => spentMark s u j) ∧
    ((seeOutputs satoshis c t k vouts s).tp u).numvouts =
      (match vouts with
      | some vouts => if u = t then vouts.items.length else (s.tp u).numvouts
      | none => (s.tp u).numvouts) := by
  cases vouts with
  | none => exact ⟨rfl, rfl⟩
  | some vouts =>
    have known' : ((s.modifyTp t (clearSlots vouts.items.length)).coinTxids t).isSome := by
      rwa [Replica.modifyTp_coinTxids, Table.isSome_modify]
    have room : ∀ o ∈ outputs satoshis c vouts,
        o.vout < (((s.modifyTp t (clearSlots vouts.items.length)).tp t).vouts.getD []).length := fun o ho => by
      rw [tp_modifyTp_self known, length_clearSlots]
      exact vout_lt_of_mem_outputs ho
    refine ⟨(spentMark_foldl (hwf.clear t vouts.items.length) known' room u j).1.trans ?_,
      (spentMark_foldl (hwf.clear t vouts.items.length) known' room u j).2.trans ?_⟩
    · by_cases hu : u = t
      · subst hu
        simp [freshMark, spentMark_clear_self known]
      · simp [hu, spentMark_clear_of_ne hu]
    · by_cases hu : u = t
      · subst hu
        simp only [tp_modifyTp_self known, if_true]
        rfl
      · simp only [tp_modifyTp_of_ne hu, hu, if_false]

/-- The state in which a scan reads the inputs. -/
theorem seeOutputs_reset_wf (hwf : s.WF) (known : (s.coinTxids t).isSome) (k : Sighting) (vouts : Option Json) :
    (seeOutputs satoshis c t k vouts (s.modifyTp t (resetTp k))).WF := by
  have hreset : Frame s (s.modifyTp t (resetTp k)) := resetTp_frame k
  have hacts : Acts c {} (s.modifyTp t (resetTp k)) (seeOutputs satoshis c t k vouts (s.modifyTp t (resetTp k))) :=
    seeOutputs_acts (hreset.known t known) fun _ _ => ⟨fun _ _ => trivial, trivial⟩
  exact Acts.wf hacts (hwf.of_shape (.of_frame hreset))

/-- **The marks after a confirmed scan.** -/
theorem spentMark_scan (hwf : s.WF) (known : (s.coinTxids t).isSome) {k : Sighting} (hconfirmed : k.isconfirmed c ≠ 0)
    {json : Json} (h : updateCoinValues satoshis c s t k (some json) = some s') (u : Text) (j : Nat) :
    (s'.tp u).numvouts = (if u = t then ((getObjectItem json "vout".toList).map (·.items.length)).getD 0
      else (s.tp u).numvouts) ∧
    spentMark s' u j =
      if j < (s'.tp u).numvouts then
        (match getObjectItem json "vout".toList with
        | some vouts => if u = t then freshMark (outputs satoshis c vouts) j else spentMark s u j
        | none => spentMark s u j).map (markedWith t (spenderOf u j (getObjectItem json "vin".toList)))
      else
        match getObjectItem json "vout".toList with
        | some vouts => if u = t then freshMark (outputs satoshis c vouts) j else spentMark s u j
        | none => spentMark s u j := by
  rw [updateCoinValues_eq known] at h
  have hreset : Frame s (s.modifyTp t (resetTp k)) := resetTp_frame k
  have hmark₀ := spentMark_congr hreset.slot rfl u j
  have hnum₀ : ((s.modifyTp t (resetTp k)).tp u).numvouts = if u = t then 0 else (s.tp u).numvouts := by
    split
    · next hu =>
      subst hu
      rw [tp_modifyTp_self known]
      rfl
    · next hu => rw [tp_modifyTp_of_ne hu]
  obtain ⟨hmark₁, hnum₁⟩ : spentMark (seeOutputs satoshis c t k (getObjectItem json "vout".toList)
      (s.modifyTp t (resetTp k))) u j = _ ∧ _ :=
    spentMark_seeOutputs (hwf.of_shape (.of_frame hreset)) (hreset.known t known) k _ u j
  obtain ⟨hmark₂, hnum₂⟩ := spentMark_processVins (seeOutputs_reset_wf hwf known k _) hconfirmed h u j
  rw [hmark₀] at hmark₁
  rw [hnum₀] at hnum₁
  refine ⟨?_, ?_⟩
  · rw [hnum₂, hnum₁]
    cases getObjectItem json "vout".toList <;> by_cases hu : u = t <;> simp [hu]
  · rw [hmark₂, hnum₂, hmark₁]

/-- **A second scan finds the marks of the first.** -/
theorem spentMark_rescan (hwf : s.WF) (known : (s.coinTxids t).isSome) {k k' : Sighting} {s'' : Replica}
    (hconfirmed : k.isconfirmed c ≠ 0) (hconfirmed' : k'.isconfirmed c ≠ 0) {json : Json}
    (h : updateCoinValues satoshis c s t k (some json) = some s') (hwf' : s'.WF) (known' : (s'.coinTxids t).isSome)
    (h' : updateCoinValues satoshis c s' t k' (some json) = some s'') (u : Text) (j : Nat) :
    spentMark s'' u j = spentMark s' u j := by
  obtain ⟨hnum, hmark⟩ := spentMark_scan hwf known hconfirmed h u j
  obtain ⟨hnum', hmark'⟩ := spentMark_scan hwf' known' hconfirmed' h' u j
  have hsame : (s''.tp u).numvouts = (s'.tp u).numvouts := by
    rw [hnum', hnum]
    split <;> rfl
  have hidem (x : Option (Option Text × Nat)) (spender : Option Nat) :
      (x.map (markedWith t spender)).map (markedWith t spender) = x.map (markedWith t spender) := by
    rw [Option.map_map]
    congr 1
    funext mark
    exact markedWith_markedWith t spender mark
  rw [hmark', hsame, hmark]
  cases getObjectItem json "vout".toList with
  | none => by_cases hlt : j < (s'.tp u).numvouts <;> simp only [hlt, if_true, if_false, hidem]
  | some vouts =>
    by_cases hu : u = t
    · simp only [hu, if_true]
    · by_cases hlt : j < (s'.tp u).numvouts <;> simp only [hu, hlt, if_true, if_false, hidem]

end Outputs

/-! ## The books of a scan -/

/-- The deposits that a scan of the decoded transaction credits. -/
def dueOf (satoshis : Text → BitVec 64) (c : Coin) (s : Replica) (isconfirmed : Nat) (decoded : Option Json) :
    List (MultisigAddr × BitVec 64) :=
  match decoded.bind (getObjectItem · "vout".toList) with
  | some vouts => dueDeposits s isconfirmed (outputs satoshis c vouts)
  | none => []

/-- The deposits credited, the listed deposits and the marks of outputs are those of `s`. -/
structure SameBooks (s s' : Replica) : Prop where
  deposits : s'.funds.deposits = s.funds.deposits
  acctDeposits : ∀ key, (s'.accts key).funds.deposits = (s.accts key).funds.deposits
  listing : (listing s').Perm (listing s)
  spent : ∀ t i, spentMark s' t i = spentMark s t i

theorem SameBooks.refl (s : Replica) : SameBooks s s := ⟨rfl, fun _ => rfl, .refl _, fun _ _ => rfl⟩

theorem SameBooks.trans {s s₁ s₂ : Replica} (h₁ : SameBooks s s₁) (h₂ : SameBooks s₁ s₂) : SameBooks s s₂ where
  deposits := h₂.deposits.trans h₁.deposits
  acctDeposits key := (h₂.acctDeposits key).trans (h₁.acctDeposits key)
  listing := h₂.listing.trans h₁.listing
  spent t i := (h₂.spent t i).trans (h₁.spent t i)

section Books
variable {satoshis : Text → BitVec 64} {c : Coin} {R : Rules} {s s' : Replica} {t : Text} {k : Sighting}
  {decoded : Option Json}

theorem Acts.place (h : Acts c R s s') (hwf : s.WF) {r : Nat} (hr : (s.vp r).xp.isSome) :
    (s'.vp r).xp.isSome ∧ (s'.vp r).parent = (s.vp r).parent ∧ (s'.vp r).parentVout = (s.vp r).parentVout := by
  induction h with
  | refl => exact ⟨hr, rfl, rfl⟩
  | @tail mid last hacts h ih =>
    obtain ⟨hsome, hparent, hvout⟩ := ih
    rcases Shape.of_act h with h | ⟨t, n, -, rfl⟩ | ⟨t, isconfirmed, am, o, -, rfl⟩
    · obtain ⟨hp, hv⟩ := h.place r hsome
      exact ⟨by rwa [h.isSome], hp.trans hparent, hv.trans hvout⟩
    · exact ⟨hsome, hparent, hvout⟩
    · have hne := ((Acts.wf hacts hwf).made r hsome).1.ne
      rw [vp_seeOutput, if_neg hne]
      exact ⟨hsome, hparent, hvout⟩

theorem xps_foldl_seeOutput {isconfirmed : Nat} {am : Nat → BitVec 64} (os : List Output) :
    ∃ rs, (os.foldl (seeOutput c t isconfirmed am) s).xps = s.xps ++ rs ∧
      rs.length = (dueDeposits s isconfirmed os).length ∧
      (os.foldl (seeOutput c t isconfirmed am) s).msigs = s.msigs := by
  induction os generalizing s with
  | nil => exact ⟨[], (List.append_nil _).symm, rfl, rfl⟩
  | cons o os ih =>
    obtain ⟨rs, hxps, hlen, hmsigs⟩ := ih (s := seeOutput c t isconfirmed am s o)
    rw [dueDeposits_congr msigs_seeOutput] at hlen
    rw [msigs_seeOutput] at hmsigs
    rw [List.foldl_cons, hxps]
    show ∃ rs', (if (dueMsig s isconfirmed o).isSome then s.xps ++ [s.values.next] else s.xps) ++ rs = s.xps ++ rs' ∧ _
    cases hdue : dueMsig s isconfirmed o with
    | none => exact ⟨rs, by simp, by simpa [dueDeposits, hdue] using hlen, hmsigs⟩
    | some msig =>
      refine ⟨s.values.next :: rs, by simp, ?_, hmsigs⟩
      rw [List.length_cons, hlen]
      simp [dueDeposits, hdue]

/-- **What a scan adds to the books.** -/
theorem updateCoinValues_books (known : (s.coinTxids t).isSome)
    (h : updateCoinValues satoshis c s t k decoded = some s') :
    (∃ rs, s'.xps = s.xps ++ rs ∧ rs.length = (dueOf satoshis c s (k.isconfirmed c) decoded).length) ∧
      s'.msigs = s.msigs ∧
      Posted c (postings (s.tp t).nxtXferbits (dueOf satoshis c s (k.isconfirmed c) decoded)) s s' := by
  cases decoded with
  | none =>
    obtain rfl := Option.some.inj h
    exact ⟨⟨[], (List.append_nil _).symm, rfl⟩, rfl, .of_eq rfl rfl⟩
  | some json =>
    have hseen := h
    rw [updateCoinValues_eq known] at hseen
    obtain ⟨hfunds, haccts, hxps, hmsigs⟩ := processVins_books hseen
    unfold dueOf
    rw [Option.bind_some]
    cases hvouts : getObjectItem json "vout".toList with
    | none =>
      rw [hvouts] at hxps hmsigs hfunds haccts
      exact ⟨⟨[], by rw [hxps]; exact (List.append_nil _).symm, rfl⟩, hmsigs, .of_eq hfunds haccts⟩
    | some vouts =>
      rw [hvouts] at hxps hmsigs
      obtain ⟨rs, hrs, hlen, hfold⟩ :
          ∃ rs, (seeOutputs satoshis c t k (some vouts) (s.modifyTp t (resetTp k))).xps = _ ++ rs ∧ _ ∧ _ :=
        xps_foldl_seeOutput (outputs satoshis c vouts)
      exact ⟨⟨rs, hxps.trans hrs, hlen⟩, hmsigs.trans hfold, updateCoinValues_posted known hvouts h⟩

/-- The state after a confirmed scan of the transaction. -/
def Scanned (satoshis : Text → BitVec 64) (c : Coin) (t : Text) (decoded : Option Json) (s : Replica) : Prop :=
  ∃ before k, before.WF ∧ (before.coinTxids t).isSome ∧ k.isconfirmed c ≠ 0 ∧
    updateCoinValues satoshis c before t k decoded = some s

theorem updateCoinValues_all_acts (hwf : s.WF) (known : (s.coinTxids t).isSome)
    (h : updateCoinValues satoshis c s t k decoded = some s') : Acts c {} s s' :=
  updateCoinValues_acts hwf known (fun _ _ _ _ => ⟨fun _ _ => trivial, trivial⟩) h

theorem updateCoinValues_known (known : (s.coinTxids t).isSome)
    (h : updateCoinValues satoshis c s t k decoded = some s') (hwf : s.WF) : (s'.coinTxids t).isSome := by
  have hacts := updateCoinValues_all_acts hwf known h
  clear h
  induction hacts with
  | refl => exact known
  | tail _ h ih =>
    rcases Shape.of_act h with h | ⟨t', n, -, rfl⟩ | ⟨t', isconfirmed, am, o, -, rfl⟩
    · exact h.known t ih
    · rwa [Replica.modifyTp_coinTxids, Table.isSome_modify]
    · show (Table.modify _ _ _ _).isSome
      rwa [Table.isSome_modify]

theorem Scanned.wf (h : Scanned satoshis c t decoded s) : s.WF ∧ (s.coinTxids t).isSome := by
  obtain ⟨before, k, hwf, known, -, h⟩ := h
  exact ⟨Acts.wf (updateCoinValues_all_acts hwf known h) hwf, updateCoinValues_known known h hwf⟩

/-- **A further scan without deposits** changes no book. -/
theorem Scanned.sameBooks (hs : Scanned satoshis c t decoded s) (hconfirmed : k.isconfirmed c ≠ 0)
    (h : updateCoinValues satoshis c s t k decoded = some s')
    (hdue : dueOf satoshis c s (k.isconfirmed c) decoded = []) : SameBooks s s' := by
  obtain ⟨hwf, known⟩ := hs.wf
  obtain ⟨⟨rs, hxps, hlen⟩, -, hposted⟩ := updateCoinValues_books known h
  rw [hdue] at hlen hposted
  obtain rfl := List.eq_nil_of_length_eq_zero hlen
  rw [List.append_nil] at hxps
  refine ⟨congrArg BalanceInfo.deposits hposted.funds, fun key => ?_, ?_, fun u j => ?_⟩
  · rw [hposted.accts]
    split <;> rfl
  · refine List.Perm.of_eq ?_
    unfold listing
    rw [hxps]
    apply List.map_congr_left
    intro r hr
    obtain ⟨xp, hxp, -⟩ := hwf.listed r hr
    obtain ⟨-, hparent, hvout⟩ := Acts.place (updateCoinValues_all_acts hwf known h) hwf (by rw [hxp]; rfl)
    rw [hparent, hvout]
  · obtain ⟨before, k', hwf', known', hconfirmed', hbefore⟩ := hs
    cases decoded with
    | none =>
      obtain rfl := Option.some.inj h
      exact spentMark_congr (resetTp_frame k).slot rfl u j
    | some json => exact spentMark_rescan hwf' known' hconfirmed' hconfirmed hbefore hwf known h u j

theorem dueOf_congr {isconfirmed isconfirmed' : Nat} (hmsigs : s'.msigs = s.msigs) (h : isconfirmed ≠ 0)
    (h' : isconfirmed' ≠ 0) : dueOf satoshis c s' isconfirmed' decoded = dueOf satoshis c s isconfirmed decoded := by
  unfold dueOf
  split
  · unfold dueDeposits dueMsig searchMultisigAddrs
    simp only [hmsigs, h, h', if_false]
  · rfl

/-- The scans that follow the first. -/
theorem rescans {isconfirmed : Nat} {rest : List Sighting} (hs : Scanned satoshis c t decoded s)
    (hpos : isconfirmed ≠ 0) (hconfirmed : ∀ k ∈ rest, k.isconfirmed c ≠ 0)
    (h : Run.run (fun s k => updateCoinValues satoshis c s t k decoded) s rest = some s') :
    s'.xps.length = s.xps.length + rest.length * (dueOf satoshis c s isconfirmed decoded).length ∧
      (dueOf satoshis c s isconfirmed decoded = [] → SameBooks s s') := by
  induction rest generalizing s with
  | nil =>
    obtain rfl := Option.some.inj h
    exact ⟨by simp, fun _ => .refl s⟩
  | cons k rest ih =>
    obtain ⟨mid, hmid, hrest⟩ := Option.bind_eq_some_iff.mp h
    obtain ⟨hwf, known⟩ := hs.wf
    have hk := hconfirmed k (by simp)
    obtain ⟨⟨rs, hxps, hlen⟩, hmsigs, -⟩ := updateCoinValues_books known hmid
    obtain ⟨hlength, hsame⟩ := ih ⟨s, k, hwf, known, hk, hmid⟩ (fun k' hk' => hconfirmed k' (by simp [hk'])) hrest
    have hdue : dueOf satoshis c mid isconfirmed decoded = dueOf satoshis c s isconfirmed decoded :=
      dueOf_congr hmsigs hpos hpos
    have hdue' : dueOf satoshis c s (k.isconfirmed c) decoded = dueOf satoshis c s isconfirmed decoded :=
      dueOf_congr rfl hpos hk
    rw [hdue] at hlength hsame
    refine ⟨?_, fun hnil => (hs.sameBooks hk hmid (hdue'.trans hnil)).trans (hsame hnil)⟩
    rw [hlength, hxps, List.length_append, hlen, hdue', List.length_cons, Nat.add_mul, Nat.one_mul]
    omega

end Books

/-- **A transaction can be scanned again** without a change of the books exactly when none of its outputs pays a
bound address. -/
theorem rescan_iff {render : Text → Text} {satoshis : Text → BitVec 64} {gp : GatewayInfo} {lps : Replicas}
    (hreach : Reachable render satoshis gp lps) {k : Nat} {t : Text} (known : ((lps k).coinTxids t).isSome)
    {decoded : Option Json} {first : Sighting} {rest : List Sighting} (hrest : rest ≠ [])
    (hconfirmed : ∀ sight ∈ first :: rest, sight.isconfirmed (gp.coin k) ≠ 0) {once often : Replica}
    (honce : updateCoinValues satoshis (gp.coin k) (lps k) t first decoded = some once)
    (hoften : Run.run (fun s sight => updateCoinValues satoshis (gp.coin k) s t sight decoded) once rest = some often) :
    SameBooks once often ↔
      ∀ vouts, decoded.bind (getObjectItem · "vout".toList) = some vouts →
        ∀ o ∈ outputs satoshis (gp.coin k) vouts, searchMultisigAddrs (lps k) o.coinaddr = none := by
  obtain ⟨es, hrun⟩ := hreach
  have hfollows := run_acts (R := fun _ => {}) init_wf (Run.along_of_forall (fun lps e _ => ?_) _) hrun k
  · have hwf := Acts.wf hfollows (init_wf k)
    have hfirst := hconfirmed first (by simp)
    obtain ⟨-, hmsigs, -⟩ := updateCoinValues_books known honce
    obtain ⟨hlength, hsame⟩ := rescans ⟨lps k, first, hwf, known, hfirst, honce⟩ one_ne_zero
      (fun sight hsight => hconfirmed sight (by simp [hsight])) hoften
    have hiff : dueOf satoshis (gp.coin k) once 1 decoded = [] ↔
        ∀ vouts, decoded.bind (getObjectItem · "vout".toList) = some vouts →
          ∀ o ∈ outputs satoshis (gp.coin k) vouts, searchMultisigAddrs (lps k) o.coinaddr = none := by
      rw [dueOf_congr hmsigs one_ne_zero one_ne_zero]
      unfold dueOf
      cases decoded.bind (getObjectItem · "vout".toList) with
      | none => exact iff_of_true rfl fun vouts h => by cases h
      | some vouts =>
        constructor
        · rintro hnil vouts' h o ho
          cases h
          have := List.filterMap_eq_nil_iff.mp hnil o ho
          rw [dueMsig, if_neg one_ne_zero] at this
          exact Option.map_eq_none_iff.mp this
        · intro h
          apply List.filterMap_eq_nil_iff.mpr
          intro o ho
          rw [dueMsig, if_neg one_ne_zero, h vouts rfl o ho]
          rfl
    rw [← hiff]
    refine ⟨fun hbooks => ?_, hsame⟩
    have hperm := hbooks.listing.length_eq
    unfold listing at hperm
    rw [List.length_map, List.length_map, hlength] at hperm
    have hzero : rest.length * (dueOf satoshis (gp.coin k) once 1 decoded).length = 0 := by omega
    rcases Nat.mul_eq_zero.mp hzero with h | h
    · exact absurd (List.eq_nil_of_length_eq_zero h) hrest
    · exact List.eq_nil_of_length_eq_zero h
  · cases e <;> simp [Allowed]

/-- A transaction without deposits, in the state after a binding. -/
def plainTx : Json := txJson [voutJson "0".toList "5".toList "B".toList]

/-- The state of gateway `0` once it has seen it. -/
def afterPlain : Replicas :=
  (Run.run (step id wholeCoins (smallGateway 0)) init [bindStep, .scan 4 "t2".toList historical (some plainTx)]).getD
    init

theorem rescan_plainTx :
    ∃ once often,
      updateCoinValues wholeCoins ((smallGateway 0).coin 4) (afterPlain 4) "t2".toList historical (some plainTx) =
      some once ∧
      Run.run (fun s sight => updateCoinValues wholeCoins ((smallGateway 0).coin 4) s "t2".toList sight (some plainTx))
        once [historical, historical] = some often ∧ SameBooks once often := by
  have hreach : Reachable id wholeCoins (smallGateway 0) afterPlain := ⟨_, Run.run_getD (by decide +kernel) init⟩
  have honce : (updateCoinValues wholeCoins ((smallGateway 0).coin 4) (afterPlain 4) "t2".toList historical
      (some plainTx)).isSome := by decide +kernel
  obtain ⟨once, honce⟩ := Option.isSome_iff_exists.mp honce
  have hoften : ((updateCoinValues wholeCoins ((smallGateway 0).coin 4) (afterPlain 4) "t2".toList historical
      (some plainTx)).bind fun once => Run.run (fun s sight => updateCoinValues wholeCoins ((smallGateway 0).coin 4) s
        "t2".toList sight (some plainTx)) once [historical, historical]).isSome := by decide +kernel
  rw [honce, Option.bind_some] at hoften
  obtain ⟨often, hoften⟩ := Option.isSome_iff_exists.mp hoften
  refine ⟨once, often, honce, hoften, (rescan_iff hreach (by decide +kernel) (by simp) (by decide) honce hoften).mpr ?_⟩
  intro vouts hvouts
  obtain rfl : .array [voutJson "0".toList "5".toList "B".toList] = vouts := Option.some.inj hvouts
  decide +kernel

/-- The two deposits of one address are credited twice. -/
theorem not_forall_rescan :
    ¬ ∀ (render : Text → Text) (satoshis : Text → BitVec 64) (gp : GatewayInfo) (lps : Replicas),
      Reachable render satoshis gp lps → ∀ k, (gp.coin k).daemon → ∀ t, ((lps k).coinTxids t).isSome →
      ∀ (decoded : Option Json) (first second : Sighting), first.isconfirmed (gp.coin k) ≠ 0 →
      second.isconfirmed (gp.coin k) ≠ 0 → ∀ once twice,
      updateCoinValues satoshis (gp.coin k) (lps k) t first decoded = some once →
      updateCoinValues satoshis (gp.coin k) once t second decoded = some twice → SameBooks once twice := by
  intro h
  have htwice : ((updateCoinValues wholeCoins ((smallGateway 0).coin 4) (afterScan 4) "t1".toList historical
      (some depositTx)).bind fun once => (updateCoinValues wholeCoins ((smallGateway 0).coin 4) once "t1".toList
        historical (some depositTx)).map fun twice => (once.funds.deposits, twice.funds.deposits)) =
      some (2400000000#64, 3600000000#64) := by decide +kernel
  obtain ⟨once, honce, hrest⟩ := Option.bind_eq_some_iff.mp htwice
  obtain ⟨twice, htwice, heq⟩ := Option.map_eq_some_iff.mp hrest
  have hbooks := h id wholeCoins (smallGateway 0) afterScan ⟨_, run_afterScan⟩ 4 (by decide) "t1".toList
    (by decide +kernel) (some depositTx) historical historical (by decide) (by decide) once twice honce htwice
  have hdeposits := hbooks.deposits
  rw [(Prod.mk.inj heq).1, (Prod.mk.inj heq).2] at hdeposits
  exact absurd hdeposits (by decide)

end NXTServices.Gateway
