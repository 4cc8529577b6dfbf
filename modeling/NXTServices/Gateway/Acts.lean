import NXTServices.Gateway.Event
import NXTServices.Gateway.Outputs

/-!
# What the handlers can do

Every handler is a sequence of a few kinds of acts on the state of its coin, so that an invariant is
checked on the acts and holds of every run.

* `Frame` : a change that concerns neither deposits nor marks;
* `Rules` : the outputs, bindings and rescans that a group of runs allows;
* `Act`, `Acts` : one act, and a sequence of them;
* `Shape` : what all acts but those of a scan keep;
* `WF` : slots and lists point where they should, which acts keep.
-/

namespace NXTServices.Gateway
open Json Queue

/-! ## Frames -/

/-- Deposits, their places and their lists, marks and slots stay; transactions may be added, and
redemptions called. -/
structure Frame (s s' : Replica) : Prop where
  known : ∀ t, (s.coinTxids t).isSome → (s'.coinTxids t).isSome
  mark : ∀ t, (s'.tp t).nxtXferbits = (s.tp t).nxtXferbits
  slot : ∀ t i, (s'.tp t).slot i = (s.tp t).slot i
  next : s.values.next ≤ s'.values.next
  xp : ∀ r, (s'.vp r).xp = (s.vp r).xp
  place : ∀ r, (s.vp r).xp.isSome →
    (s'.vp r).parent = (s.vp r).parent ∧ (s'.vp r).parentVout = (s.vp r).parentVout
  xps : s'.xps = s.xps
  msigs : s'.msigs = s.msigs
  calls : ∃ wps : List WithdrawInfo, s'.calls = s.calls ++ wps.map Call.withdrawreq

namespace Frame
variable {c : Coin} {s s₁ s₂ : Replica}

theorem refl (s : Replica) : Frame s s :=
  ⟨fun _ h => h, fun _ => rfl, fun _ _ => rfl, le_rfl, fun _ => rfl, fun _ _ => ⟨rfl, rfl⟩, rfl, rfl, ⟨[], by simp⟩⟩

theorem trans (h₁ : Frame s s₁) (h₂ : Frame s₁ s₂) : Frame s s₂ where
  known t h := h₂.known t (h₁.known t h)
  mark t := (h₂.mark t).trans (h₁.mark t)
  slot t i := (h₂.slot t i).trans (h₁.slot t i)
  next := h₁.next.trans h₂.next
  xp r := (h₂.xp r).trans (h₁.xp r)
  place r h := by
    have hp := h₁.place r h
    have hq := h₂.place r (by rwa [h₁.xp r])
    exact ⟨hq.1.trans hp.1, hq.2.trans hp.2⟩
  xps := h₂.xps.trans h₁.xps
  msigs := h₂.msigs.trans h₁.msigs
  calls := by
    obtain ⟨ws, hw⟩ := h₁.calls
    obtain ⟨ws', hw'⟩ := h₂.calls
    exact ⟨ws ++ ws', by rw [hw', hw, List.map_append, List.append_assoc]⟩

theorem of_eq (htp : s₁.coinTxids = s.coinTxids) (hvp : s₁.values = s.values) (hxps : s₁.xps = s.xps)
    (hmsigs : s₁.msigs = s.msigs) (hcalls : ∃ wps : List WithdrawInfo, s₁.calls = s.calls ++ wps.map Call.withdrawreq) :
    Frame s s₁ := by
  refine ⟨fun t h => by rwa [htp], fun t => ?_, fun t i => ?_, by rw [hvp], fun r => ?_, fun r _ => ?_, hxps,
    hmsigs, hcalls⟩ <;> simp [Replica.tp, Replica.vp, htp, hvp]

theorem balance (type : BalanceType) (nxtAddr : Text) (value : BitVec 64) :
    Frame s (updateBalanceInfo c s type nxtAddr value) := of_eq rfl rfl rfl rfl ⟨[], by simp⟩

theorem addTp (t : Text) : Frame s (s.addTp t) where
  known _ h := isSome_addTp h
  mark _ := by rw [tp_addTp]
  slot _ _ := by rw [tp_addTp]
  next := le_rfl
  xp _ := rfl
  place _ _ := ⟨rfl, rfl⟩
  xps := rfl
  msigs := rfl
  calls := ⟨[], by simp⟩

theorem modifyTp (t : Text) {f : CoinTxid → CoinTxid} (hmark : ∀ tp, (f tp).nxtXferbits = tp.nxtXferbits)
    (hslot : ∀ tp i, (f tp).slot i = tp.slot i) : Frame s (s.modifyTp t f) where
  known _ h := by simpa using h
  mark t' := tp_modifyTp_proj CoinTxid.nxtXferbits hmark t'
  slot t' i := tp_modifyTp_proj (·.slot i) (hslot · i) t'
  next := le_rfl
  xp _ := rfl
  place _ _ := ⟨rfl, rfl⟩
  xps := rfl
  msigs := rfl
  calls := ⟨[], by simp⟩

theorem modifyVp (r : Nat) {g : CoinValue → CoinValue} (hxp : ∀ vp, (g vp).xp = vp.xp)
    (hparent : ∀ vp, (g vp).parent = vp.parent) (hvout : ∀ vp, (g vp).parentVout = vp.parentVout) :
    Frame s (s.modifyVp r g) where
  known _ h := h
  mark _ := rfl
  slot _ _ := rfl
  next := le_rfl
  xp q := Arena.modify_proj CoinValue.xp hxp q
  place q _ := ⟨Arena.modify_proj CoinValue.parent hparent q, Arena.modify_proj CoinValue.parentVout hvout q⟩
  xps := rfl
  msigs := rfl
  calls := ⟨[], by simp⟩

/-- A new output without a deposit, in a cell that had none. -/
theorem allocVp {vp : CoinValue} (hnext : (s.vp s.values.next).xp = none) (hvp : vp.xp = none) :
    Frame s (s.allocVp vp) where
  known _ h := h
  mark _ := rfl
  slot _ _ := rfl
  next := Nat.le_succ _
  xp r := by
    show ((s.values.alloc vp).cell r).xp = (s.values.cell r).xp
    rw [Arena.alloc_cell]
    split
    · next h => rw [h, hvp]; exact hnext.symm
    · rfl
  place r h := by
    have hr : r ≠ s.values.next := by
      rintro rfl
      simp [hnext] at h
    show ((s.values.alloc vp).cell r).parent = _ ∧ ((s.values.alloc vp).cell r).parentVout = _
    rw [Arena.alloc_cell_of_ne hr]
    exact ⟨rfl, rfl⟩
  xps := rfl
  msigs := rfl
  calls := ⟨[], by simp⟩

end Frame

/-! ## Acts -/

/-- What a group of runs allows; a rescan that is allowed stays so under frames. -/
structure Rules where
  output : Text → Output → Prop := fun _ _ => True
  bind : MultisigAddr → Prop := fun _ => True
  clear : Replica → Text → Prop := fun _ _ => True
  clear_frame : ∀ {s s' t}, Frame s s' → clear s t → clear s' t := by exact fun _ _ => trivial

inductive Act (c : Coin) (R : Rules) : Replica → Replica → Prop
  | frame {s s' : Replica} (h : Frame s s') : Act c R s s'
  | clear {s : Replica} (t : Text) (n : Nat) (h : R.clear s t) : Act c R s (s.modifyTp t (clearSlots n))
  | output {s : Replica} (t : Text) (isconfirmed : Nat) (am : Nat → BitVec 64) (o : Output)
      (known : (s.coinTxids t).isSome) (null : (s.tp t).slot o.vout = none)
      (room : o.vout < ((s.tp t).vouts.getD []).length) (h : R.output t o) :
      Act c R s (seeOutput c t isconfirmed am s o)
  | mark {s : Replica} (t : Text) (bits : BitVec 64) (known : (s.coinTxids t).isSome) (h : bits ≠ 0#64) :
      Act c R s (s.modifyTp t fun tp => { tp with nxtXferbits := bits })
  | link {s : Replica} (r : Nat) (bits : BitVec 64) :
      Act c R s (s.modifyXp r fun xp => { xp with nxt := { xp.nxt with assetTxid := bits } })
  | charge {s : Replica} (t : Text) (vout : Int) (nxtAddr : Text) (value : BitVec 64) (h : ¬ c.daemon) :
      Act c R s (depositTransferNXTacct c s nxtAddr value t vout)
  | settle {s : Replica} (t : Text) (i r : Nat) (xp : CrosschainInfo) (nxt64bits bits assetoshis : BitVec 64)
      (known : (s.coinTxids t).isSome) (slot : (s.tp t).slot i = some r) (hxp : (s.vp r).xp = some xp)
      (h : bits ≠ 0#64) : Act c R s (settleDeposit c s t i r xp nxt64bits bits assetoshis)
  | issue {s : Replica} (r : Nat) (xp : CrosschainInfo) (txid : BitVec 64) (listed : r ∈ s.xps)
      (hxp : (s.vp r).xp = some xp) (assigned : assigned c xp.nxt64bits)
      (funded : 0 < balanceVerification c s false (expandNxt64bits xp.nxt64bits) xp.value)
      (h : (s.tp (s.vp r).parent).nxtXferbits = 0#64) : Act c R s (issueTransfer c s r xp txid)
  | confirm {s : Replica} (r : Nat) (xp : CrosschainInfo) (hxp : (s.vp r).xp = some xp)
      (h : xp.nxt.pending ≠ 0) :
      Act c R s (s.modifyXp r fun xp => { xp with nxt := { xp.nxt with confirmed := xp.nxt.confirmed ||| 1 } })
  | bind {s : Replica} (nxtAddr : Text) (msig : MultisigAddr) (h : R.bind msig) :
      Act c R s (addMultisigAddr s nxtAddr msig)

abbrev Acts (c : Coin) (R : Rules) : Replica → Replica → Prop := Relation.ReflTransGen (Act c R)

/-- Slots hold the outputs of their transaction, the list holds deposits with an address, and a deposit
belongs to a known transaction. -/
structure Replica.WF (s : Replica) : Prop where
  slot : ∀ t i r, (s.tp t).slot i = some r →
    (s.vp r).xp.isSome ∧ (s.vp r).parent = t ∧ (s.vp r).parentVout = i
  listed : ∀ r ∈ s.xps, ∃ xp, (s.vp r).xp = some xp ∧ xp.msig.isSome
  made : ∀ r, (s.vp r).xp.isSome → r < s.values.next ∧ (s.coinTxids (s.vp r).parent).isSome

/-! ## What acts do to deposits -/

section Views
variable {c : Coin} {R : Rules} {s s' : Replica} {t t' : Text} {r q : Nat} {f : CrosschainInfo → CrosschainInfo}

theorem vp_modifyXp (q : Nat) :
    (s.modifyXp r f).vp q = if q = r then { s.vp q with xp := (s.vp q).xp.map f } else s.vp q := by
  unfold Replica.modifyXp Replica.modifyVp Replica.vp
  dsimp only
  rw [Arena.modify_cell]
  split
  · next h => rw [h]
  · rfl

theorem xp_modifyXp (q : Nat) :
    ((s.modifyXp r f).vp q).xp = if q = r then (s.vp q).xp.map f else (s.vp q).xp := by
  rw [vp_modifyXp]
  split <;> rfl

theorem xp_modifyXp_self {xp : CrosschainInfo} (h : (s.vp r).xp = some xp) :
    ((s.modifyXp r f).vp r).xp = some (f xp) := by
  rw [xp_modifyXp, if_pos rfl, h, Option.map_some]

@[simp] theorem parent_modifyXp : ((s.modifyXp r f).vp q).parent = (s.vp q).parent := by
  rw [vp_modifyXp]
  split <;> rfl

@[simp] theorem parentVout_modifyXp : ((s.modifyXp r f).vp q).parentVout = (s.vp q).parentVout := by
  rw [vp_modifyXp]
  split <;> rfl

@[simp] theorem tp_modifyXp : (s.modifyXp r f).tp t = s.tp t := rfl

/-- The write of a mark. -/
def setMark (bits : BitVec 64) (tp : CoinTxid) : CoinTxid := { tp with nxtXferbits := bits }

theorem nxtXferbits_setMark {bits : BitVec 64} (known : (s.coinTxids t).isSome) (t' : Text) :
    ((s.modifyTp t (setMark bits)).tp t').nxtXferbits = if t' = t then bits else (s.tp t').nxtXferbits := by
  split
  · next h => subst h; rw [tp_modifyTp_self known]; rfl
  · next h => rw [tp_modifyTp_of_ne h]

theorem slot_setMark {bits : BitVec 64} (t' : Text) (i : Nat) :
    ((s.modifyTp t (setMark bits)).tp t').slot i = (s.tp t').slot i :=
  tp_modifyTp_proj (·.slot i) (f := setMark bits) (fun _ => rfl) t'

def settledXp (bits assetoshis : BitVec 64) (xp : CrosschainInfo) : CrosschainInfo :=
  { xp with
    assetoshis := assetoshis
    nxt := { xp.nxt with assetTxid := bits, confirmed := 1, pending := xp.nxt.pending ||| 1 } }

def issuedXp (txid : BitVec 64) (xp : CrosschainInfo) : CrosschainInfo :=
  { xp with
    nxt := { xp.nxt with
      assetTxid := txid
      pending := if txid ≠ 0#64 then xp.nxt.pending ||| 1 else xp.nxt.pending } }

theorem settleDeposit_eq {vout : Int} {xp : CrosschainInfo} {nxt64bits bits assetoshis : BitVec 64} :
    settleDeposit c s t vout r xp nxt64bits bits assetoshis =
      { (s.modifyTp t (setMark bits)).modifyXp r (settledXp bits assetoshis) with
        funds := (settleDeposit c s t vout r xp nxt64bits bits assetoshis).funds
        accts := (settleDeposit c s t vout r xp nxt64bits bits assetoshis).accts
        calls := s.calls ++ if xp.nxt.pending = 0 then [.depositTransfer t vout] else [] } := by
  unfold settleDeposit
  by_cases h : xp.nxt.pending = 0
  · simp only [h, if_true]; rfl
  · simp only [h, if_false, List.append_nil]; rfl

theorem issueTransfer_eq {xp : CrosschainInfo} {txid : BitVec 64} :
    issueTransfer c s r xp txid =
      ((s.modifyTp (s.vp r).parent (setMark txid)).modifyXp r (issuedXp txid)).log
        (.issueTransferAsset (s.vp r).parent (s.vp r).parentVout (expandNxt64bits xp.nxt64bits)
          (assetidStr c.coinid) xp.assetoshis txid) := rfl

theorem vp_seeOutput {isconfirmed : Nat} {am : Nat → BitVec 64} {o : Output} (q : Nat) :
    (seeOutput c t isconfirmed am s o).vp q =
      if q = s.values.next then
        newOutput t isconfirmed o (newDeposit c s t isconfirmed o (am o.vout))
      else s.vp q := Arena.alloc_cell q

end Views

/-! ## Shapes -/

/-- What a deposit keeps for ever. -/
def CrosschainInfo.fixed (xp : CrosschainInfo) : CrosschainInfo := { xp with assetoshis := 0#64, nxt := {} }

/-- Slots, lists and the places of deposits stay, and so do their fixed parts. -/
structure Shape (s s' : Replica) : Prop where
  known : ∀ t, (s.coinTxids t).isSome → (s'.coinTxids t).isSome
  slot : ∀ t i, (s'.tp t).slot i = (s.tp t).slot i
  next : s.values.next ≤ s'.values.next
  fixed : ∀ r, (s'.vp r).xp.map CrosschainInfo.fixed = (s.vp r).xp.map CrosschainInfo.fixed
  place : ∀ r, (s.vp r).xp.isSome →
    (s'.vp r).parent = (s.vp r).parent ∧ (s'.vp r).parentVout = (s.vp r).parentVout
  xps : s'.xps = s.xps

namespace Shape
variable {c : Coin} {s s' : Replica}

theorem isSome (h : Shape s s') (r : Nat) : (s'.vp r).xp.isSome = (s.vp r).xp.isSome := by
  have := congrArg Option.isSome (h.fixed r)
  simpa using this

theorem before (h : Shape s s') {r : Nat} {xp' : CrosschainInfo} (hxp : (s'.vp r).xp = some xp') :
    ∃ xp, (s.vp r).xp = some xp ∧ xp'.fixed = xp.fixed := by
  have hfix := h.fixed r
  rw [hxp, Option.map_some] at hfix
  obtain ⟨xp, hxp, heq⟩ := Option.map_eq_some_iff.mp hfix.symm
  exact ⟨xp, hxp, heq.symm⟩

theorem after (h : Shape s s') {r : Nat} {xp : CrosschainInfo} (hxp : (s.vp r).xp = some xp) :
    ∃ xp', (s'.vp r).xp = some xp' ∧ xp'.fixed = xp.fixed := by
  have hfix := h.fixed r
  rw [hxp, Option.map_some] at hfix
  exact Option.map_eq_some_iff.mp hfix

theorem of_frame (h : Frame s s') : Shape s s' :=
  ⟨h.known, h.slot, h.next, fun r => by rw [h.xp r], h.place, h.xps⟩

theorem of_modifyXp (r : Nat) {f : CrosschainInfo → CrosschainInfo} (hf : ∀ xp, (f xp).fixed = xp.fixed) :
    Shape s (s.modifyXp r f) where
  known _ h := h
  slot _ _ := rfl
  next := le_rfl
  fixed q := by
    rw [xp_modifyXp]
    split
    · rw [Option.map_map]
      exact congrArg (fun g => Option.map g _) (funext hf)
    · rfl
  place q _ := by simp
  xps := rfl

theorem of_setMark (t : Text) (bits : BitVec 64) : Shape s (s.modifyTp t (setMark bits)) where
  known _ h := by simpa using h
  slot := slot_setMark
  next := le_rfl
  fixed _ := rfl
  place _ _ := ⟨rfl, rfl⟩
  xps := rfl

theorem trans {s₁ s₂ : Replica} (h₁ : Shape s s₁) (h₂ : Shape s₁ s₂) : Shape s s₂ where
  known t h := h₂.known t (h₁.known t h)
  slot t i := (h₂.slot t i).trans (h₁.slot t i)
  next := h₁.next.trans h₂.next
  fixed r := (h₂.fixed r).trans (h₁.fixed r)
  place r h := by
    have hp := h₁.place r h
    have hq := h₂.place r (by rwa [h₁.isSome r])
    exact ⟨hq.1.trans hp.1, hq.2.trans hp.2⟩
  xps := h₂.xps.trans h₁.xps

/-- Totals, accounts, addresses and calls are free. -/
theorem congr {s₁ : Replica} (h : Shape s s₁) (htp : s'.coinTxids = s₁.coinTxids)
    (hvp : s'.values = s₁.values) (hxps : s'.xps = s₁.xps) : Shape s s' where
  known t ht := by rw [htp]; exact h.known t ht
  slot t i := by
    have := h.slot t i
    unfold Replica.tp at this ⊢
    rwa [htp]
  next := by rw [hvp]; exact h.next
  fixed r := by
    have := h.fixed r
    unfold Replica.vp at this ⊢
    rwa [hvp]
  place r hr := by
    have := h.place r hr
    unfold Replica.vp at this ⊢
    rwa [hvp]
  xps := hxps.trans h.xps

theorem refl (s : Replica) : Shape s s := of_frame (.refl s)

/-- **The shape of a replica** is only changed by a scan. -/
theorem of_act {R : Rules} (h : Act c R s s') :
    Shape s s' ∨ (∃ t n, R.clear s t ∧ s' = s.modifyTp t (clearSlots n)) ∨
      ∃ t isconfirmed am o, ((s.coinTxids t).isSome ∧ (s.tp t).slot o.vout = none ∧
        o.vout < ((s.tp t).vouts.getD []).length ∧ R.output t o) ∧
        s' = seeOutput c t isconfirmed am s o := by
  cases h with
  | frame h => exact .inl (of_frame h)
  | clear t n h => exact .inr (.inl ⟨t, n, h, rfl⟩)
  | output t isconfirmed am o known null room h =>
    exact .inr (.inr ⟨t, isconfirmed, am, o, ⟨known, null, room, h⟩, rfl⟩)
  | mark t bits known h => exact .inl (of_setMark t bits)
  | link r bits => exact .inl (of_modifyXp r fun _ => by rfl)
  | charge t vout nxtAddr value h => exact .inl ((refl s).congr rfl rfl rfl)
  | settle t i r xp nxt64bits bits assetoshis known slot hxp h =>
    rw [settleDeposit_eq]
    exact .inl (((of_setMark t bits).trans (of_modifyXp r fun _ => by rfl)).congr rfl rfl rfl)
  | issue r xp txid listed hxp assigned funded h =>
    rw [issueTransfer_eq]
    exact .inl (((of_setMark _ txid).trans (of_modifyXp r fun _ => by rfl)).congr rfl rfl rfl)
  | confirm r xp hxp h => exact .inl (of_modifyXp r fun _ => by rfl)
  | bind nxtAddr msig h => exact .inl ((refl s).congr rfl rfl rfl)

end Shape

/-! ## The pointers -/

theorem wf_init : Replica.WF {} where
  slot t i r h := by simp [Replica.tp, Table.empty, CoinTxid.slot] at h
  listed r h := by simp at h
  made r h := by simp [Replica.vp] at h

section Pointers
variable {c : Coin} {R : Rules} {s s' : Replica}

theorem Replica.WF.of_shape (hs : s.WF) (h : Shape s s') : s'.WF where
  slot t i r hr := by
    rw [h.slot] at hr
    obtain ⟨hxp, hparent, hvout⟩ := hs.slot t i r hr
    obtain ⟨hp, hv⟩ := h.place r hxp
    exact ⟨by rwa [h.isSome], hp.trans hparent, hv.trans hvout⟩
  listed r hr := by
    rw [h.xps] at hr
    obtain ⟨xp, hxp, hmsig⟩ := hs.listed r hr
    obtain ⟨xp', hxp', hfix⟩ := h.after hxp
    have : xp'.msig = xp.msig := (congrArg CrosschainInfo.msig hfix :)
    exact ⟨xp', hxp', by rwa [this]⟩
  made r hr := by
    rw [h.isSome] at hr
    obtain ⟨hlt, hknown⟩ := hs.made r hr
    exact ⟨hlt.trans_le h.next, by rw [(h.place r hr).1]; exact h.known _ hknown⟩

theorem Replica.WF.clear (hs : s.WF) (t : Text) (n : Nat) : (s.modifyTp t (clearSlots n)).WF where
  slot t' i r hr := by
    by_cases ht : t' = t
    · subst ht
      cases hkey : s.coinTxids t' with
      | none => simp [Replica.tp, hkey, CoinTxid.slot] at hr
      | some tp =>
        rw [tp_modifyTp_self (by simp [hkey]), slot_clearSlots] at hr
        cases hr
    · rw [tp_modifyTp_of_ne ht] at hr
      exact hs.slot t' i r hr
  listed r hr := hs.listed r hr
  made r hr := by simpa using hs.made r hr

theorem Replica.WF.output (hs : s.WF) {t : Text} (isconfirmed : Nat) (am : Nat → BitVec 64) (o : Output)
    (known : (s.coinTxids t).isSome) : (seeOutput c t isconfirmed am s o).WF := by
  have hfree : (s.vp s.values.next).xp = none := by
    rw [← Option.not_isSome_iff_eq_none]
    exact fun h => absurd (hs.made _ h).1 (lt_irrefl _)
  have hne {r : Nat} (h : (s.vp r).xp.isSome) : r ≠ s.values.next := by
    rintro rfl
    simp [hfree] at h
  refine ⟨fun t' i r hr => ?_, fun r hr => ?_, fun r hr => ?_⟩
  · rw [vp_seeOutput]
    rw [tp_seeOutput] at hr
    by_cases ht : t' = t
    · subst ht
      rw [tp_modifyTp_self known, slot_fillSlot] at hr
      split at hr
      · next h =>
        obtain rfl := Option.some.inj hr
        rw [if_pos rfl, h.1]
        exact ⟨rfl, rfl, rfl⟩
      · obtain ⟨hxp, hplace⟩ := hs.slot t' i r hr
        rw [if_neg (hne hxp)]
        exact ⟨hxp, hplace⟩
    · rw [tp_modifyTp_of_ne ht] at hr
      obtain ⟨hxp, hplace⟩ := hs.slot t' i r hr
      rw [if_neg (hne hxp)]
      exact ⟨hxp, hplace⟩
  · rw [vp_seeOutput]
    rcases mem_xps_seeOutput hr with h | ⟨rfl, msig, hdue⟩
    · obtain ⟨xp, hxp, hmsig⟩ := hs.listed r h
      rw [if_neg (hne (by simp [hxp]))]
      exact ⟨xp, hxp, hmsig⟩
    · rw [if_pos rfl]
      refine ⟨_, rfl, ?_⟩
      show (searchMultisigAddrs s o.coinaddr).isSome
      rw [dueMsig_eq_some hdue]
      rfl
  · rw [vp_seeOutput] at hr ⊢
    show r < s.values.next + 1 ∧ (s.coinTxids.modify _ _ _).isSome
    rw [Table.isSome_modify]
    split
    · next h => exact ⟨by omega, known⟩
    · next h =>
      rw [if_neg h] at hr
      exact ⟨(hs.made r hr).1.trans (Nat.lt_succ_self _), (hs.made r hr).2⟩

/-- **Acts keep the pointers.** -/
theorem Act.wf (h : Act c R s s') (hs : s.WF) : s'.WF := by
  rcases Shape.of_act h with h | ⟨t, n, -, rfl⟩ | ⟨t, isconfirmed, am, o, ⟨known, -⟩, rfl⟩
  · exact hs.of_shape h
  · exact hs.clear t n
  · exact hs.output isconfirmed am o known

theorem Acts.wf (h : Acts c R s s') (hs : s.WF) : s'.WF := by
  induction h with
  | refl => exact hs
  | tail _ h ih => exact h.wf ih

theorem Replica.WF.listed_ne_next (hs : s.WF) {r : Nat} (hr : r ∈ s.xps) : r ≠ s.values.next := by
  obtain ⟨xp, hxp, -⟩ := hs.listed r hr
  exact (hs.made r (by rw [hxp]; rfl)).1.ne

theorem Replica.WF.free (hs : s.WF) : (s.vp s.values.next).xp = none := by
  rw [← Option.not_isSome_iff_eq_none]
  exact fun h => absurd (hs.made _ h).1 (lt_irrefl _)

end Pointers
end NXTServices.Gateway
