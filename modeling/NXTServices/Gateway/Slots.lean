import NXTServices.Gateway.Event
import NXTServices.Gateway.Outputs

/-!
# Reads of the slots of a transaction

* `Access` : a read of `vouts[index]`, and `Access.Fine` when it is one of a slot that exists;
* `processVinsTraced`, `decodeDepositconfirmedJsonTraced` : the functions with their reads, in order;
* `processVinsTraced_snd`, `decodeDepositconfirmedJsonTraced_snd` : they do what the functions do;
* `VinsFit`, `ConfirmationFits` : inputs and messages that name outputs of the transactions stored;
* `slots_fine_iff` : the reads are fine exactly for these.
-/

namespace NXTServices.Gateway
open Json

/-! ## Reads -/

/-- `slot` is what stands there, and `fields` says whether it is followed. -/
structure Access where
  index : Int
  numvouts : Nat
  slot : Option Nat
  fields : Bool
deriving DecidableEq

/-- The index is within `numvouts`, and no null pointer is followed. -/
def Access.Fine (a : Access) : Prop := (0 ≤ a.index ∧ a.index < a.numvouts) ∧ (a.fields → a.slot.isSome)
deriving Decidable

/-- The read of `tp->vouts[index]`. -/
def CoinTxid.access (tp : CoinTxid) (index : Int) (fields : Bool) : Access where
  index := index
  numvouts := tp.numvouts
  slot := if index < 0 then none else tp.slot index.toNat
  fields := fields

/-- A result, or a step without one, behind the reads on the way. -/
abbrev Traced (α : Type) := List Access × Option α

def Traced.bind {α β : Type} (x : Traced α) (f : α → Traced β) : Traced β :=
  match x.2 with
  | none => (x.1, none)
  | some a => (x.1 ++ (f a).1, (f a).2)

theorem Traced.bind_snd {α β : Type} (x : Traced α) (f : α → Traced β) :
    (x.bind f).2 = x.2.bind fun a => (f a).2 := by
  unfold Traced.bind
  cases x.2 with
  | none => rfl
  | some a => rfl

/-- The reads of two parts, of which the second one is reached when those of the first are fine. -/
theorem Traced.forall_bind_iff {α β : Type} {x : Traced α} {f : α → Traced β} {P Q : Prop}
    (hx : (∀ a ∈ x.1, a.Fine) ↔ P) (hsome : P → ∃ r, x.2 = some r)
    (hf : ∀ r, P → x.2 = some r → ((∀ a ∈ (f r).1, a.Fine) ↔ Q)) :
    (∀ a ∈ (x.bind f).1, a.Fine) ↔ P ∧ Q := by
  have hfirst : ∀ a ∈ x.1, a ∈ (x.bind f).1 := by
    intro a ha
    unfold Traced.bind
    cases x.2 with
    | none => exact ha
    | some r => exact List.mem_append_left _ ha
  constructor
  · intro hall
    have hP : P := hx.mp fun a ha => hall a (hfirst a ha)
    obtain ⟨r, hr⟩ := hsome hP
    refine ⟨hP, (hf r hP hr).mp fun a ha => hall a ?_⟩
    unfold Traced.bind
    rw [hr]
    exact List.mem_append_right _ ha
  · rintro ⟨hP, hQ⟩ a ha
    obtain ⟨r, hr⟩ := hsome hP
    unfold Traced.bind at ha
    rw [hr] at ha
    rcases List.mem_append.mp ha with ha | ha
    · exact hx.mpr hP a ha
    · exact (hf r hP hr).mpr hQ a ha

theorem Traced.forall_bind_iff_left {α β : Type} {x : Traced α} {f : α → Traced β}
    (hf : ∀ r, ∀ a ∈ (f r).1, a.Fine) : (∀ a ∈ (x.bind f).1, a.Fine) ↔ ∀ a ∈ x.1, a.Fine := by
  unfold Traced.bind
  cases x.2 with
  | none => exact Iff.rfl
  | some r =>
    rw [List.forall_mem_append]
    exact and_iff_left (hf r)

/-! ## `process_vins` -/

def processVinTraced (s : Replica) (t : Text) (isconfirmed i : Nat) (txid : Text) (vout : Int) : Traced Replica :=
  match s.coinTxids txid with
  | none => ([], some s)
  | some vintp =>
    if vintp.vouts.isNone then ([], some s)
    else
      let a := vintp.access vout Bool.true
      match a.slot with
      | none => ([a], none)
      | some r =>
        -- the address once more, in the message about an internal one
        let again := if (searchMultisigAddrs s (s.vp r).coinaddr).isSome ∧ (s.tp t).hasinternal = 0 then [a] else []
        let s := flagInternal s t r
        if vout < vintp.numvouts then
          (a :: again ++ [a],
            some (if ((s.vp r).parentVout : Int) = vout ∧ (s.vp r).parent = txid then markSpent s t i r isconfirmed
              else s))
        else (a :: again, some s)

def vinsLoopTraced (t : Text) (isconfirmed : Nat) : List Json → Nat → Replica → Traced Replica
  | [], _, s => ([], some s)
  | obj :: objs, i, s =>
    match readVin obj with
    | some (txid, vout) =>
      (processVinTraced s t isconfirmed i txid vout).bind (vinsLoopTraced t isconfirmed objs (i + 1))
    | none => vinsLoopTraced t isconfirmed objs (i + 1) s

def processVinsTraced (s : Replica) (t : Text) (isconfirmed : Nat) (vins : Option Json) : Traced Replica :=
  match vins with
  | none => ([], some s)
  | some vins =>
    let s := s.modifyTp t fun tp =>
      { tp with
        numvins := vins.items.length
        vins := reallocSlots tp.vins tp.numvins vins.items.length }
    match vins.items with
    | [obj] =>
      match readCoinbase obj with
      | some coinbase => ([], some (addCoinbase s t coinbase))
      | none => vinsLoopTraced t isconfirmed [obj] 0 s
    | objs => vinsLoopTraced t isconfirmed objs 0 s

/-- An input names an output that is there, or a transaction without outputs. -/
def VinFits (s : Replica) (obj : Json) : Prop :=
  match readVin obj with
  | none => True
  | some (txid, vout) =>
    (s.tp txid).vouts.isSome → ((s.tp txid).access vout Bool.true).Fine

instance (s : Replica) (obj : Json) : Decidable (VinFits s obj) := by
  unfold VinFits
  split <;> infer_instance

/-- The input of a coinbase transaction is not looked up. -/
def VinsFit (s : Replica) (vins : Option Json) : Prop :=
  match vins with
  | none => True
  | some vins =>
    match vins.items with
    | [obj] => (readCoinbase obj).isSome ∨ VinFits s obj
    | objs => ∀ obj ∈ objs, VinFits s obj

section
variable {s s' : Replica} {t txid : Text} {isconfirmed i : Nat} {vout : Int} {obj : Json}

theorem processVinTraced_snd :
    (processVinTraced s t isconfirmed i txid vout).2 = processVin s t isconfirmed i txid vout := by
  unfold processVinTraced processVin
  cases s.coinTxids txid with
  | none => rfl
  | some vintp =>
    dsimp only
    by_cases hnull : vintp.vouts.isNone
    · rw [if_pos hnull, if_pos hnull]
    · rw [if_neg hnull, if_neg hnull]
      unfold CoinTxid.access
      dsimp only
      by_cases hneg : vout < 0
      · rw [if_pos hneg, if_pos hneg]
      · rw [if_neg hneg, if_neg hneg]
        cases vintp.slot vout.toNat with
        | none => rfl
        | some r =>
          dsimp only
          by_cases hin : vout < vintp.numvouts
          · rw [if_pos hin]
            simp only [hin, true_and]
            split <;> rfl
          · simp only [hin, false_and, if_false]

theorem vinsLoopTraced_snd {objs : List Json} :
    (vinsLoopTraced t isconfirmed objs i s).2 = vinsLoop t isconfirmed objs i s := by
  induction objs generalizing i s with
  | nil => rfl
  | cons obj objs ih =>
    unfold vinsLoopTraced vinsLoop
    cases readVin obj with
    | none => exact ih
    | some vin =>
      dsimp only
      rw [Traced.bind_snd, processVinTraced_snd]
      exact congrArg _ (funext fun s' => ih)

/-- The reads beside, this is `process_vins`. -/
theorem processVinsTraced_snd (vins : Option Json) :
    (processVinsTraced s t isconfirmed vins).2 = processVins s t isconfirmed vins := by
  unfold processVinsTraced processVins
  cases vins with
  | none => rfl
  | some vins =>
    dsimp only
    generalize vins.items = objs
    rcases objs with _ | ⟨obj, _ | ⟨obj', objs⟩⟩
    · rfl
    · dsimp only
      cases readCoinbase obj with
      | some coinbase => rfl
      | none => exact vinsLoopTraced_snd
    · exact vinsLoopTraced_snd

/-- The arrays of outputs are the same. -/
def SameVouts (s s' : Replica) : Prop :=
  ∀ t, (s'.tp t).vouts = (s.tp t).vouts ∧ (s'.tp t).numvouts = (s.tp t).numvouts

theorem SameVouts.refl (s : Replica) : SameVouts s s := fun _ => ⟨rfl, rfl⟩

theorem SameVouts.trans {s'' : Replica} (h : SameVouts s s') (h' : SameVouts s' s'') : SameVouts s s'' :=
  fun t => ⟨(h' t).1.trans (h t).1, (h' t).2.trans (h t).2⟩

theorem sameVouts_modifyTp {f : CoinTxid → CoinTxid} (hvouts : ∀ tp, (f tp).vouts = tp.vouts)
    (hnum : ∀ tp, (f tp).numvouts = tp.numvouts) : SameVouts s (s.modifyTp t f) :=
  fun t' => ⟨tp_modifyTp_proj CoinTxid.vouts hvouts t', tp_modifyTp_proj CoinTxid.numvouts hnum t'⟩

theorem SameVouts.access (h : SameVouts s s') (index : Int) (fields : Bool) :
    (s'.tp t).access index fields = (s.tp t).access index fields := by
  unfold CoinTxid.access CoinTxid.slot
  rw [(h t).1, (h t).2]

theorem SameVouts.vinFits_iff (h : SameVouts s s') : VinFits s' obj ↔ VinFits s obj := by
  unfold VinFits
  cases readVin obj with
  | none => exact Iff.rfl
  | some vin =>
    dsimp only
    rw [(h vin.1).1, h.access]

theorem sameVouts_flagInternal (r : Nat) : SameVouts s (flagInternal s t r) := by
  unfold flagInternal
  split
  · exact sameVouts_modifyTp (fun _ => rfl) fun _ => rfl
  · exact SameVouts.refl s

theorem sameVouts_markSpent (r : Nat) : SameVouts s (markSpent s t i r isconfirmed) :=
  sameVouts_modifyTp (fun _ => rfl) fun _ => rfl

theorem sameVouts_processVin (h : processVin s t isconfirmed i txid vout = some s') : SameVouts s s' := by
  rcases processVin_cases h with rfl | ⟨r, rfl | rfl⟩
  · exact SameVouts.refl s'
  · exact sameVouts_flagInternal r
  · exact (sameVouts_flagInternal r).trans (sameVouts_markSpent r)

theorem processVinTraced_null (hnull : (s.tp txid).vouts = none) :
    processVinTraced s t isconfirmed i txid vout = ([], some s) := by
  have htp : s.tp txid = (s.coinTxids txid).getD {} := rfl
  rw [htp] at hnull
  unfold processVinTraced
  cases hvintp : s.coinTxids txid with
  | none => rfl
  | some vintp =>
    rw [hvintp, Option.getD_some] at hnull
    dsimp only
    rw [hnull]
    rfl

/-- All reads of an input are of one slot, and the input is processed when there is an output in it. -/
theorem processVinTraced_read {slots : List (Option Nat)} (hslots : (s.tp txid).vouts = some slots) :
    (∃ more, (processVinTraced s t isconfirmed i txid vout).1 = (s.tp txid).access vout Bool.true :: more ∧
      ∀ a ∈ more, a = (s.tp txid).access vout Bool.true) ∧
    (((s.tp txid).access vout Bool.true).slot.isSome →
      ∃ s', (processVinTraced s t isconfirmed i txid vout).2 = some s') := by
  have htp : s.tp txid = (s.coinTxids txid).getD {} := rfl
  rw [htp] at hslots ⊢
  unfold processVinTraced
  cases hvintp : s.coinTxids txid with
  | none =>
    rw [hvintp] at hslots
    cases hslots
  | some vintp =>
    rw [hvintp, Option.getD_some] at hslots
    rw [Option.getD_some]
    have hsome : ¬vintp.vouts.isNone := by simp [hslots]
    dsimp only
    rw [if_neg hsome]
    cases (vintp.access vout Bool.true).slot with
    | none => exact ⟨⟨[], rfl, by simp⟩, by simp⟩
    | some r =>
      dsimp only
      have hagain : ∀ a ∈ (if (searchMultisigAddrs s (s.vp r).coinaddr).isSome ∧ (s.tp t).hasinternal = 0 then
          [vintp.access vout Bool.true] else []), a = vintp.access vout Bool.true := by
        intro a ha
        split at ha
        · exact List.mem_singleton.mp ha
        · cases ha
      split
      · refine ⟨⟨_, rfl, fun a ha => ?_⟩, fun _ => ⟨_, rfl⟩⟩
        rcases List.mem_append.mp ha with ha | ha
        · exact hagain a ha
        · exact List.mem_singleton.mp ha
      · exact ⟨⟨_, rfl, hagain⟩, fun _ => ⟨_, rfl⟩⟩

theorem processVinTraced_fine_iff (hvin : readVin obj = some (txid, vout)) :
    ((∀ a ∈ (processVinTraced s t isconfirmed i txid vout).1, a.Fine) ↔ VinFits s obj) ∧
      (VinFits s obj → ∃ s', (processVinTraced s t isconfirmed i txid vout).2 = some s') := by
  unfold VinFits
  rw [hvin]
  dsimp only
  cases hslots : (s.tp txid).vouts with
  | none =>
    rw [processVinTraced_null hslots]
    exact ⟨by simp, fun _ => ⟨s, rfl⟩⟩
  | some slots =>
    obtain ⟨⟨more, hfst, hmore⟩, hdone⟩ :=
      @processVinTraced_read s t txid isconfirmed i vout slots hslots
    rw [hfst, Option.isSome_some, imp_iff_right rfl]
    refine ⟨⟨fun h => h _ List.mem_cons_self, fun hfine a ha => ?_⟩, fun hfine => hdone (hfine.2 rfl)⟩
    rcases List.mem_cons.mp ha with rfl | ha
    · exact hfine
    · rw [hmore a ha]
      exact hfine

theorem vinsLoopTraced_fine_iff {objs : List Json} :
    (∀ a ∈ (vinsLoopTraced t isconfirmed objs i s).1, a.Fine) ↔ ∀ obj ∈ objs, VinFits s obj := by
  induction objs generalizing i s with
  | nil => simp [vinsLoopTraced]
  | cons obj objs ih =>
    rw [List.forall_mem_cons]
    unfold vinsLoopTraced
    cases hvin : readVin obj with
    | none =>
      have hfits : VinFits s obj := by
        unfold VinFits
        rw [hvin]
        trivial
      rw [and_iff_right hfits]
      exact ih
    | some vin =>
      obtain ⟨hfine, hdone⟩ := @processVinTraced_fine_iff s t vin.1 isconfirmed i vin.2 obj hvin
      refine Traced.forall_bind_iff hfine hdone fun s' _ hs' => ?_
      have hsame : SameVouts s s' := sameVouts_processVin (processVinTraced_snd.symm.trans hs')
      rw [ih]
      exact forall₂_congr fun obj _ => hsame.vinFits_iff

/-- **The reads of `process_vins`** are fine exactly when every input fits. -/
theorem processVinsTraced_fine_iff (vins : Option Json) :
    (∀ a ∈ (processVinsTraced s t isconfirmed vins).1, a.Fine) ↔ VinsFit s vins := by
  unfold processVinsTraced VinsFit
  cases vins with
  | none => simp
  | some vins =>
    dsimp only
    have hsame : SameVouts s (s.modifyTp t fun tp =>
        { tp with
          numvins := vins.items.length
          vins := reallocSlots tp.vins tp.numvins vins.items.length }) :=
      sameVouts_modifyTp (fun _ => rfl) fun _ => rfl
    generalize s.modifyTp t _ = s' at hsame ⊢
    generalize vins.items = objs
    rcases objs with _ | ⟨obj, _ | ⟨obj', objs⟩⟩
    · simp [vinsLoopTraced]
    · dsimp only
      cases hcoinbase : readCoinbase obj with
      | some coinbase => simp
      | none =>
        rw [vinsLoopTraced_fine_iff, List.forall_mem_singleton, hsame.vinFits_iff]
        simp
    · dsimp only
      rw [vinsLoopTraced_fine_iff]
      exact forall₂_congr fun obj _ => hsame.vinFits_iff

end

/-! ## `decode_depositconfirmed_json` -/

/-- The reads that look for the transfer of an output. -/
def matchingAccesses (s : Replica) (t : Text) (vout : Int) : List Access :=
  let tp := s.tp t
  if tp.vouts.isNone then []
  else
    tp.access vout Bool.false ::
      match (tp.access vout Bool.false).slot with
      | none => []
      | some r =>
        tp.access vout Bool.true :: if (s.vp r).xp.isSome then [tp.access vout Bool.true] else []

/-- `set_pending_assetxfer` compares the number first. -/
def pendingAccesses (s : Replica) (cointxid : Text) (vout : Int) : List Access :=
  let tp := s.tp cointxid
  if 0 ≤ vout ∧ vout < tp.numvouts then
    tp.access vout Bool.false ::
      if (tp.access vout Bool.false).slot.isSome then [tp.access vout Bool.true] else []
  else []

def decodeDepositconfirmedTraced (c : Coin) (s : Replica) (argjson : Json) (amtxid : Option Text) :
    Traced (Int × Replica) :=
  let cointxid := copyCJSON (getObjectItem argjson "cointxid".toList)
  let nxtAddr := copyCJSON (getObjectItem argjson "NXTaddr".toList)
  let value := getSatoshiObj argjson "value".toList
  let assetoshis := getSatoshiObj argjson "assetoshis".toList
  let vout := int32 (getCJSONInt argjson "vout".toList)
  let t := Hashtable.storeKey maxCointxidLen cointxid
  let s := confirmAM c (s.addTp cointxid) t amtxid nxtAddr value
  Traced.bind (matchingAccesses s t vout, matchingTransfer s t vout) fun nxtTxid =>
    if copyCJSON (getObjectItem argjson "coin".toList) ≠ [] ∧ cointxid ≠ [] ∧ nxtTxid ≠ 0#64 ∧
        copyCJSON (getObjectItem argjson "coinaddr".toList) ≠ [] ∧ nxtAddr ≠ [] ∧
        0 < value.toInt ∧ 0 < assetoshis.toInt then
      let (code, s') := setPendingAssetxfer c s cointxid vout (calcNxt64bits nxtAddr) nxtTxid assetoshis
      (pendingAccesses s cointxid vout, some (if code ≠ 0 then c.coinid else -1, s'))
    else ([], some (-1, s))

def decodeDepositconfirmedJsonTraced (gp : GatewayInfo) (lps : Replicas) (argjson : Json)
    (amtxid : Option Text) : Traced (Int × Replicas) :=
  match argjson with
  | .null => ([], some (-1, lps))
  | argjson =>
    let coinid := int32 (getCJSONInt argjson "coinid".toList)
    if 0 ≤ coinid ∧ coinid < 64 then
      if gp.keeps coinid.toNat then
        (decodeDepositconfirmedTraced (gp.coin coinid.toNat) (lps coinid.toNat) argjson amtxid).bind
          fun (code, s) => ([], some (code, Function.update lps coinid.toNat s))
      else ([], some (-1, lps))
    else ([], none)

/-- The message names an output of the transaction, or the transaction has none. -/
def ConfirmationFits (gp : GatewayInfo) (lps : Replicas) (argjson : Json) : Prop :=
  let coinid := int32 (getCJSONInt argjson "coinid".toList)
  let vout := int32 (getCJSONInt argjson "vout".toList)
  let cointxid := copyCJSON (getObjectItem argjson "cointxid".toList)
  let tp := (lps coinid.toNat).tp (Hashtable.storeKey maxCointxidLen cointxid)
  argjson ≠ .null → (0 ≤ coinid ∧ coinid < 64) → gp.keeps coinid.toNat → tp.vouts.isSome →
    0 ≤ vout ∧ vout < tp.numvouts

section
variable {c : Coin} {s : Replica} {gp : GatewayInfo} {lps : Replicas} {t cointxid : Text} {vout : Int}
  {argjson : Json} {amtxid : Option Text}

theorem sameVouts_confirmAM (nxtAddr : Text) (value : BitVec 64) :
    SameVouts s (confirmAM c (s.addTp cointxid) t amtxid nxtAddr value) := by
  have hadd : SameVouts s (s.addTp cointxid) := fun t' => by
    rw [tp_addTp]
    exact ⟨rfl, rfl⟩
  refine hadd.trans ?_
  unfold confirmAM
  cases amtxid with
  | none => exact SameVouts.refl _
  | some amtxid =>
    dsimp only
    split
    · have hmark : SameVouts (s.addTp cointxid) ((s.addTp cointxid).modifyTp t fun tp =>
          { tp with confirmedAMbits := calcNxt64bits amtxid }) := sameVouts_modifyTp (fun _ => rfl) fun _ => rfl
      split
      · exact hmark
      · exact hmark.trans (SameVouts.refl _)
    · exact SameVouts.refl _

/-- The slot that is followed has been compared with null. -/
theorem matchingAccesses_fine_iff : (∀ a ∈ matchingAccesses s t vout, a.Fine) ↔
    ((s.tp t).vouts.isSome → 0 ≤ vout ∧ vout < (s.tp t).numvouts) := by
  unfold matchingAccesses
  dsimp only
  by_cases hnull : (s.tp t).vouts.isNone
  · have hnone : ¬(s.tp t).vouts.isSome := by simpa using hnull
    rw [if_pos hnull]
    simp [hnone]
  · have hsome : (s.tp t).vouts.isSome := by simpa [Option.isSome_iff_ne_none] using hnull
    rw [if_neg hnull, imp_iff_right hsome, List.forall_mem_cons]
    refine ⟨fun h => h.1.1, fun hin => ⟨⟨hin, fun h => by cases h⟩, fun a ha => ?_⟩⟩
    cases hslot : ((s.tp t).access vout Bool.false).slot with
    | none =>
      rw [hslot] at ha
      cases ha
    | some r =>
      have hfine : ((s.tp t).access vout Bool.true).Fine := ⟨hin, fun _ => Option.isSome_iff_exists.mpr ⟨r, hslot⟩⟩
      rw [hslot] at ha
      rcases List.mem_cons.mp ha with rfl | ha
      · exact hfine
      · split at ha
        · rw [List.mem_singleton.mp ha]
          exact hfine
        · cases ha

theorem fine_of_mem_pendingAccesses {a : Access} (h : a ∈ pendingAccesses s cointxid vout) : a.Fine := by
  unfold pendingAccesses at h
  dsimp only at h
  split at h
  · next hin =>
    rcases List.mem_cons.mp h with rfl | h
    · exact ⟨hin, fun h => by cases h⟩
    · split at h
      · next hsome =>
        rw [List.mem_singleton.mp h]
        exact ⟨hin, fun _ => hsome⟩
      · cases h
  · cases h

theorem decodeDepositconfirmedTraced_snd :
    (decodeDepositconfirmedTraced c s argjson amtxid).2 = decodeDepositconfirmed c s argjson amtxid := by
  unfold decodeDepositconfirmedTraced decodeDepositconfirmed
  dsimp only
  rw [Traced.bind_snd]
  cases matchingTransfer _ _ _ with
  | none => rfl
  | some nxtTxid =>
    rw [Option.bind_some, Option.map_some]
    split <;> rfl

theorem decodeDepositconfirmedJsonTraced_snd : (decodeDepositconfirmedJsonTraced gp lps argjson amtxid).2 =
    decodeDepositconfirmedJson gp lps argjson amtxid := by
  unfold decodeDepositconfirmedJsonTraced decodeDepositconfirmedJson
  cases argjson with
  | null => rfl
  | _ =>
    dsimp only
    split
    · split
      · rw [Traced.bind_snd, decodeDepositconfirmedTraced_snd]
        exact Option.map_eq_bind.symm
      · rfl
    · rfl

theorem decodeDepositconfirmedTraced_fine_iff :
    (∀ a ∈ (decodeDepositconfirmedTraced c s argjson amtxid).1, a.Fine) ↔
      let tp := s.tp (Hashtable.storeKey maxCointxidLen (copyCJSON (getObjectItem argjson "cointxid".toList)))
      let vout := int32 (getCJSONInt argjson "vout".toList)
      (tp.vouts.isSome → 0 ≤ vout ∧ vout < tp.numvouts) := by
  unfold decodeDepositconfirmedTraced
  dsimp only
  rw [Traced.forall_bind_iff_left, matchingAccesses_fine_iff]
  · have hsame := fun t => @sameVouts_confirmAM c s t (copyCJSON (getObjectItem argjson "cointxid".toList)) amtxid
      (copyCJSON (getObjectItem argjson "NXTaddr".toList)) (getSatoshiObj argjson "value".toList) t
    rw [(hsame _).1, (hsame _).2]
  · intro nxtTxid a ha
    split at ha
    · exact fine_of_mem_pendingAccesses ha
    · cases ha

/-- **The reads of `decode_depositconfirmed_json`** are fine exactly when the number of the output is. -/
theorem decodeDepositconfirmedJsonTraced_fine_iff :
    (∀ a ∈ (decodeDepositconfirmedJsonTraced gp lps argjson amtxid).1, a.Fine) ↔ ConfirmationFits gp lps argjson := by
  unfold decodeDepositconfirmedJsonTraced ConfirmationFits
  cases argjson with
  | null => simp
  | _ =>
    dsimp only
    rw [imp_iff_right (by simp)]
    split
    · next hrange =>
      rw [imp_iff_right hrange]
      split
      · next hkeeps =>
        rw [imp_iff_right hkeeps, Traced.forall_bind_iff_left (by simp)]
        exact decodeDepositconfirmedTraced_fine_iff
      · next hkeeps => exact ⟨fun _ h => absurd h hkeeps, fun _ a ha => by cases ha⟩
    · next hrange => exact ⟨fun _ h => absurd h hrange, fun _ a ha => by cases ha⟩

end

/-- **Only existing slots are read** exactly when every input, or the message, names one: the address is read
before the number is compared, and the message's number is not compared at all. -/
theorem slots_fine_iff (gp : GatewayInfo) (lps : Replicas) (coinid : Nat) (t : Text) (isconfirmed : Nat)
    (vins : Option Json) (argjson : Json) (amtxid : Option Text) :
    ((∀ a ∈ (processVinsTraced (lps coinid) t isconfirmed vins).1, a.Fine) ↔ VinsFit (lps coinid) vins) ∧
      ((∀ a ∈ (decodeDepositconfirmedJsonTraced gp lps argjson amtxid).1, a.Fine) ↔
        ConfirmationFits gp lps argjson) :=
  ⟨processVinsTraced_fine_iff vins, decodeDepositconfirmedJsonTraced_fine_iff⟩

/-- An input from the third output of a transaction with two of them, and a message about it. -/
theorem not_forall_slots_fine :
    ¬∀ (gp : GatewayInfo) (lps : Replicas) (coinid : Nat) (t : Text) (isconfirmed : Nat) (vins : Option Json)
      (argjson : Json) (amtxid : Option Text),
      (∀ a ∈ (processVinsTraced (lps coinid) t isconfirmed vins).1, a.Fine) ∧
        ∀ a ∈ (decodeDepositconfirmedJsonTraced gp lps argjson amtxid).1, a.Fine := by
  intro h
  have hall := h (smallGateway 0) afterScan 4 "t2".toList 1
    (some (.array [.object [("txid".toList, .string "t1".toList), ("vout".toList, .number "2".toList)]]))
    (.object [("coinid".toList, .number "4".toList), ("cointxid".toList, .string "t1".toList),
      ("vout".toList, .number "2".toList)]) none
  exact absurd hall (by decide +kernel)

end NXTServices.Gateway
