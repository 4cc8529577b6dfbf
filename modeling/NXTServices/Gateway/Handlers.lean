import NXTServices.Gateway.Acts

/-!
# The handlers as acts

* `scan_acts`, `assetcommand_acts`, `decodeDepositconfirmed_acts`, `transferAssets_acts` : a handler is
  a sequence of acts on its coin;
* `Allowed` : a step keeps to the rules;
* `step_acts`, `run_acts` : a step of a node, and a run, is a sequence of acts on each coin.
-/

namespace NXTServices.Gateway
open Json Queue

/-! ## Scans -/

section Scan
variable {satoshis : Text → BitVec 64} {c : Coin} {R : Rules} {s s' : Replica} {t : Text} {isconfirmed : Nat}

theorem markSpent_frame (i r : Nat) : Frame s (markSpent s t i r isconfirmed) := by
  refine Frame.trans (Frame.modifyTp t (fun _ => by rfl) fun _ _ => by rfl) (Frame.modifyVp r ?_ ?_ ?_) <;>
    intro vp <;> split <;> rfl

theorem flagInternal_frame (r : Nat) : Frame s (flagInternal s t r) := by
  unfold flagInternal
  split
  · exact .modifyTp t (fun _ => rfl) fun _ _ => rfl
  · exact .refl s

theorem processVin_frame {i : Nat} {txid : Text} {vout : Int}
    (h : processVin s t isconfirmed i txid vout = some s') : Frame s s' := by
  rcases processVin_cases h with rfl | ⟨r, rfl | rfl⟩
  · exact .refl s'
  · exact flagInternal_frame r
  · exact (flagInternal_frame r).trans (markSpent_frame i r)

theorem vinsLoop_frame {objs : List Json} {i : Nat} (h : vinsLoop t isconfirmed objs i s = some s') :
    Frame s s' :=
  vinsLoop_rule .refl .trans processVin_frame h

theorem addCoinbase_frame (hfree : (s.vp s.values.next).xp = none) (coinbase : Text) :
    Frame s (addCoinbase s t coinbase) :=
  (Frame.allocVp hfree rfl).trans (.modifyTp t (fun _ => rfl) fun _ _ => rfl)

theorem processVins_frame (hfree : (s.vp s.values.next).xp = none) {vins : Option Json}
    (h : processVins s t isconfirmed vins = some s') : Frame s s' := by
  unfold processVins at h
  split at h
  · obtain rfl := Option.some.inj h
    exact .refl s
  · next vins =>
    have hhead : Frame s (s.modifyTp t fun tp =>
        { tp with
          numvins := vins.items.length
          vins := reallocSlots tp.vins tp.numvins vins.items.length }) :=
      .modifyTp t (fun _ => rfl) fun _ _ => rfl
    dsimp only at h
    split at h
    · split at h
      · obtain rfl := Option.some.inj h
        exact hhead.trans (addCoinbase_frame (by exact hfree) _)
      · exact hhead.trans (vinsLoop_frame h)
    · exact hhead.trans (vinsLoop_frame h)

/-- The outputs of a scan, one act each: the slots behind the next output are still null. -/
theorem foldl_seeOutput_acts {am : Nat → BitVec 64} {os : List Output}
    (hsorted : os.Pairwise fun o o' => o.vout < o'.vout) (known : (s.coinTxids t).isSome)
    (null : ∀ o ∈ os, (s.tp t).slot o.vout = none)
    (room : ∀ o ∈ os, o.vout < ((s.tp t).vouts.getD []).length) (h : ∀ o ∈ os, R.output t o) :
    Acts c R s (os.foldl (seeOutput c t isconfirmed am) s) := by
  induction os generalizing s with
  | nil => exact .refl
  | cons o os ih =>
    rw [List.foldl_cons]
    have hact : Act c R s (seeOutput c t isconfirmed am s o) :=
      .output t isconfirmed am o known (null o (by simp)) (room o (by simp)) (h o (by simp))
    refine .head hact (ih hsorted.of_cons ?_ (fun o' ho' => ?_) (fun o' ho' => ?_) fun o' ho' => h o' (by simp [ho']))
    · show (s.coinTxids.modify _ _ _).isSome
      rwa [Table.isSome_modify]
    · rw [slot_seeOutput_of_ne (.inl ?_), null o' (by simp [ho'])]
      exact ((List.pairwise_cons.mp hsorted).1 o' ho').ne'
    · rw [length_seeOutput]
      exact room o' (by simp [ho'])

theorem seeOutputs_acts (known : (s.coinTxids t).isSome) {k : Sighting} {vouts : Option Json}
    (hok : ∀ v, vouts = some v → (∀ o ∈ outputs satoshis c v, R.output t o) ∧ R.clear s t) :
    Acts c R s (seeOutputs satoshis c t k vouts s) := by
  cases vouts with
  | none => exact .refl
  | some vouts =>
    obtain ⟨hout, hclear⟩ := hok vouts rfl
    refine .head (.clear t _ hclear)
      (foldl_seeOutput_acts (outputs_sorted vouts) ?_ (fun o _ => ?_) (fun o ho => ?_) hout)
    · rw [Replica.modifyTp_coinTxids, Table.isSome_modify]
      exact known
    · rw [tp_modifyTp_self known, slot_clearSlots]
    · rw [tp_modifyTp_self known, length_clearSlots]
      exact vout_lt_of_mem_outputs ho

theorem resetTp_frame (k : Sighting) : Frame s (s.modifyTp t (resetTp k)) :=
  .modifyTp t (fun _ => rfl) fun _ _ => rfl

theorem updateCoinValues_acts (hs : s.WF) (known : (s.coinTxids t).isSome) {k : Sighting} {decoded : Option Json}
    (hok : ∀ json vouts, decoded = some json → getObjectItem json "vout".toList = some vouts →
      (∀ o ∈ outputs satoshis c vouts, R.output t o) ∧ R.clear s t)
    (h : updateCoinValues satoshis c s t k decoded = some s') : Acts c R s s' := by
  cases decoded with
  | none =>
    obtain rfl := Option.some.inj h
    exact .single (.frame (resetTp_frame k))
  | some json =>
    rw [updateCoinValues_eq known] at h
    have hreset : Frame s (s.modifyTp t (resetTp k)) := resetTp_frame k
    have hseen : Acts c R s (seeOutputs satoshis c t k (getObjectItem json "vout".toList) (s.modifyTp t (resetTp k))) :=
      .head (.frame hreset) (seeOutputs_acts (hreset.known t known) fun v hv =>
        ⟨(hok json v rfl hv).1, R.clear_frame hreset (hok json v rfl hv).2⟩)
    exact hseen.tail (.frame (processVins_frame (Acts.wf hseen hs).free h))

theorem scan_acts (hs : s.WF) {txid : Text} {k : Sighting} {decoded : Option Json}
    (hok : ∀ json vouts, decoded = some json → getObjectItem json "vout".toList = some vouts →
      (∀ o ∈ outputs satoshis c vouts, R.output (Hashtable.storeKey maxCointxidLen txid) o) ∧
        R.clear s (Hashtable.storeKey maxCointxidLen txid))
    (h : scan satoshis c s txid k decoded = some s') : Acts c R s s' := by
  unfold scan at h
  split at h
  · obtain rfl := Option.some.inj h
    exact .refl
  · have hadd : Act c R s (s.addTp txid) := .frame (.addTp txid)
    refine .head hadd (updateCoinValues_acts (hadd.wf hs) isSome_addTp_self (fun json vouts hjson hvouts => ?_) h)
    exact ⟨(hok json vouts hjson hvouts).1, R.clear_frame (.addTp txid) (hok json vouts hjson hvouts).2⟩

end Scan

/-! ## Events and messages -/

section Messages
variable {render : Text → Text} {c : Coin} {R : Rules} {s s' : Replica}

theorem depositOf_eq_some {t : Text} {vout : Int} {r : Nat} {xp : CrosschainInfo}
    (h : depositOf s t vout = some (r, xp)) :
    ∃ i : Nat, vout = i ∧ (s.tp t).slot i = some r ∧ (s.vp r).xp = some xp ∧ (s.coinTxids t).isSome := by
  unfold depositOf at h
  split at h
  · next hv =>
    split at h
    · next r' hslot =>
      obtain ⟨xp', hxp, heq⟩ := Option.map_eq_some_iff.mp h
      cases heq
      refine ⟨vout.toNat, by omega, hslot, hxp, ?_⟩
      cases hkey : s.coinTxids t with
      | none => simp [Replica.tp, hkey, CoinTxid.slot] at hslot
      | some tp => rfl
    · cases h
  · cases h

theorem crosschainEvent_acts (ev : AssetEvent) (json obj : Json) :
    Acts c R s (crosschainEvent c s ev json obj) := by
  unfold crosschainEvent
  split
  · dsimp only
    generalize copyCJSON (getObjectItem json "cointxid".toList) = cointxid
    split
    · exact .refl
    · have hmark : Acts c R s ((s.addTp cointxid).modifyTp (Hashtable.storeKey maxCointxidLen cointxid)
          fun tp => { tp with nxtXferbits := calcNxt64bits ev.txid }) :=
        .head (.frame (.addTp _)) (.single (.mark _ _ isSome_addTp_self ev.txid_ne))
      split
      · split
        · exact hmark.tail (.link _ _)
        · exact hmark
      · split
        · exact hmark
        · next hdaemon => exact hmark.tail (.charge _ _ _ _ hdaemon)
  · exact .refl

/-- A redemption does not touch deposits. -/
theorem redeemEvent_frame (ev : AssetEvent) (json : Json) (validaddr : Bool) :
    Frame s (redeemEvent c s ev json validaddr) := by
  unfold redeemEvent
  split
  · exact .refl s
  · split
    · exact .refl s
    · split
      · dsimp only
        split
        · exact .refl s
        · split
          · exact .of_eq rfl rfl rfl rfl ⟨[_], rfl⟩
          · exact .refl s
      · exact .refl s

theorem assetcommand_acts (ev : AssetEvent) (validaddr : Bool) :
    Acts c R s (assetcommand render c s ev validaddr) := by
  unfold assetcommand
  split
  · exact .refl
  · split
    · exact crosschainEvent_acts ev _ _
    · exact .single (.frame (redeemEvent_frame ev _ validaddr))

theorem setPendingAssetxfer_acts (cointxid : Text) (vout : Int) (nxt64bits nxtTxid assetoshis : BitVec 64) :
    Acts c R s (setPendingAssetxfer c s cointxid vout nxt64bits nxtTxid assetoshis).2 := by
  unfold setPendingAssetxfer
  split
  · exact .refl
  · next r xp hdep =>
    split
    · exact .refl
    · next hne =>
      push Not at hne
      obtain ⟨i, rfl, hslot, hxp, hknown⟩ := depositOf_eq_some hdep
      exact .single (.settle cointxid i r xp _ _ _ hknown hslot hxp hne.2)

theorem confirmAM_frame (t : Text) (amtxid : Option Text) (nxtAddr : Text) (value : BitVec 64) :
    Frame s (confirmAM c s t amtxid nxtAddr value) := by
  unfold confirmAM
  split
  · exact .refl s
  · split
    · next amtxid _ =>
      have hset : Frame s (s.modifyTp t fun tp => { tp with confirmedAMbits := calcNxt64bits amtxid }) :=
        .modifyTp t (fun _ => rfl) fun _ _ => rfl
      dsimp only
      split
      · exact hset
      · exact hset.trans (.balance ..)
    · exact .refl s

theorem decodeDepositconfirmed_acts {argjson : Json} {amtxid : Option Text} {code : Int}
    (h : decodeDepositconfirmed c s argjson amtxid = some (code, s')) : Acts c R s s' := by
  unfold decodeDepositconfirmed at h
  dsimp only at h
  obtain ⟨nxtTxid, -, heq⟩ := Option.map_eq_some_iff.mp h
  have hframe (x t nxtAddr : Text) (value : BitVec 64) :
      Frame s (confirmAM c (s.addTp x) t amtxid nxtAddr value) := (Frame.addTp x).trans (confirmAM_frame ..)
  split at heq
  · cases heq
    exact .head (.frame (hframe ..)) (setPendingAssetxfer_acts ..)
  · cases heq
    exact .single (.frame (hframe ..))

theorem updateAcctBinding_acts (nxtAddr : Text) (msig : MultisigAddr) (h : R.bind msig) :
    Acts c R s (updateAcctBinding c s nxtAddr msig) := by
  unfold updateAcctBinding
  split
  · split
    · exact .refl
    · exact .single (.bind nxtAddr msig h)
  · exact .refl

end Messages

/-! ## Paying out -/

section Transfer
variable {c : Coin} {R : Rules} {s : Replica}

theorem authorizeAssetTransfer_acts {r : Nat} (hr : r ∈ s.xps) (txid : BitVec 64) (confirms : Int) :
    Acts c R s (authorizeAssetTransfer c s r txid confirms) ∧
      (authorizeAssetTransfer c s r txid confirms).xps = s.xps := by
  unfold authorizeAssetTransfer
  split
  · exact ⟨.refl, rfl⟩
  · next xp hxp =>
    dsimp only
    split
    · split
      · split
        · next h => exact ⟨.single (.issue r xp txid hr hxp h.1 h.2.2.2.1 h.2.2.2.2), rfl⟩
        · exact ⟨.refl, rfl⟩
      · split
        · next h =>
          refine ⟨.single (.confirm r xp hxp fun hp => h.1 ?_), rfl⟩
          rw [hp]
          rfl
        · exact ⟨.refl, rfl⟩
    · exact ⟨.refl, rfl⟩

theorem transferLoop_acts (txid : Nat → BitVec 64) (confirms : Nat → Int) {rs : List Nat} (i : Nat)
    (hrs : ∀ r ∈ rs, r ∈ s.xps) : Acts c R s (transferLoop c txid confirms rs i s) := by
  induction rs generalizing i s with
  | nil => exact .refl
  | cons r rs ih =>
    obtain ⟨hacts, hxps⟩ := authorizeAssetTransfer_acts (c := c) (R := R) (hrs r (by simp)) (txid i) (confirms i)
    exact hacts.trans (ih (i + 1) fun q hq => by rw [hxps]; exact hrs q (by simp [hq]))

theorem transferAssets_acts (txid : Nat → BitVec 64) (confirms : Nat → Int) :
    Acts c R s (transferAssets c txid confirms s) := transferLoop_acts txid confirms 0 fun _ h => h

end Transfer

/-! ## Steps and runs of a node -/

section Node
variable {render : Text → Text} {satoshis : Text → BitVec 64} {gp : GatewayInfo} {R : Nat → Rules}
  {lps lps' : Replicas}

/-- The step keeps to the rules of its coin. -/
def Allowed (satoshis : Text → BitVec 64) (gp : GatewayInfo) (R : Nat → Rules) (lps : Replicas) : Step → Prop
  | .scan coinid txid _ decoded => ∀ json vouts, decoded = some json →
      getObjectItem json "vout".toList = some vouts →
      (∀ o ∈ outputs satoshis (gp.coin coinid) vouts,
        (R coinid).output (Hashtable.storeKey maxCointxidLen txid) o) ∧
      (R coinid).clear (lps coinid) (Hashtable.storeKey maxCointxidLen txid)
  | .bind _ nxt64bits argjson => ∀ msig, decodeMsigjson (expandNxt64bits nxt64bits) argjson = some msig →
      (R msig.coinid.toNat).bind msig
  | _ => True

/-- Each coin of the node goes through acts. -/
def Follows (gp : GatewayInfo) (R : Nat → Rules) (lps lps' : Replicas) : Prop :=
  ∀ k, Acts (gp.coin k) (R k) (lps k) (lps' k)

theorem Follows.refl (lps : Replicas) : Follows gp R lps lps := fun _ => .refl

theorem Follows.trans {lps₁ lps₂ : Replicas} (h₁ : Follows gp R lps lps₁) (h₂ : Follows gp R lps₁ lps₂) :
    Follows gp R lps lps₂ := fun k => (h₁ k).trans (h₂ k)

theorem Follows.update {coinid : Nat} {s : Replica} (h : Acts (gp.coin coinid) (R coinid) (lps coinid) s) :
    Follows gp R lps (Function.update lps coinid s) := by
  intro k
  by_cases hk : k = coinid
  · subst hk
    rwa [Function.update_self]
  · rw [Function.update_of_ne hk]

theorem Follows.wf (h : Follows gp R lps lps') (hwf : ∀ k, (lps k).WF) (k : Nat) : (lps' k).WF :=
  Acts.wf (h k) (hwf k)

theorem decodeDepositconfirmedJson_follows {argjson : Json} {amtxid : Option Text} {code : Int}
    (h : decodeDepositconfirmedJson gp lps argjson amtxid = some (code, lps')) : Follows gp R lps lps' := by
  unfold decodeDepositconfirmedJson at h
  split at h
  · cases h
    exact .refl lps
  · dsimp only at h
    split at h
    · split at h
      · obtain ⟨⟨code', s⟩, hdec, heq⟩ := Option.map_eq_some_iff.mp h
        cases heq
        exact .update (decodeDepositconfirmed_acts hdec)
      · cases h
        exact .refl lps
    · cases h

theorem enqueueRetry_follows (coinid : Nat) (one : Bool) (argjson : Json) :
    Follows gp R lps (enqueueRetry lps coinid one argjson) :=
  .update (.single (.frame (.of_eq rfl rfl rfl rfl ⟨[], by simp⟩)))

/-- **The rule of the retry loop**: what holds between the states around a write to a queue and around a decoded
message holds around the loop. -/
theorem retryLoop_rule {P : Replicas → Replicas → Prop} (hrefl : ∀ lps, P lps lps)
    (htrans : ∀ {lps₁ lps₂ lps₃}, P lps₁ lps₂ → P lps₂ lps₃ → P lps₁ lps₃)
    (hqueue : ∀ lps coinid q, P lps (Function.update lps coinid { lps coinid with retrydepositconfirmed := q }))
    (hdecode : ∀ {lps argjson code lps'}, decodeDepositconfirmedJson gp lps argjson none =
      some (code, lps') → P lps lps')
    {coinid : Nat} {one : Bool} {n : Nat} (h : retryLoop gp coinid one n lps = some lps') : P lps lps' := by
  induction n generalizing lps with
  | zero =>
    obtain rfl := Option.some.inj h
    exact hrefl lps
  | succ n ih =>
    have hdeq : P lps (dequeueRetry lps coinid one).2 := hqueue lps coinid _
    simp only [retryLoop] at h
    split at h
    · next lps₁ heq =>
      obtain rfl := Option.some.inj h
      rwa [heq] at hdeq
    · next argjson lps₁ heq =>
      rw [heq] at hdeq
      split at h
      · cases h
      · next code lps₂ hdec =>
        refine htrans hdeq (htrans (hdecode hdec) (htrans ?_ (ih h)))
        split
        · exact hqueue lps₂ coinid _
        · exact hrefl lps₂

theorem retryLoop_follows {coinid : Nat} {one : Bool} {n : Nat} (h : retryLoop gp coinid one n lps = some lps') :
    Follows gp R lps lps' :=
  retryLoop_rule Follows.refl (fun h₁ h₂ => h₁.trans h₂)
    (fun _ _ _ => .update (.single (.frame (.of_eq rfl rfl rfl rfl ⟨[], by simp⟩))))
    decodeDepositconfirmedJson_follows h

theorem retryAll_follows {coinid : Nat} (h : retryAll gp lps coinid = some lps') : Follows gp R lps lps' := by
  obtain ⟨mid, hmid, hrest⟩ := Option.bind_eq_some_iff.mp h
  exact (retryLoop_follows hmid).trans (retryLoop_follows hrest)

/-- **A step is a sequence of acts on each coin.** -/
theorem step_acts {e : Step} (hwf : ∀ k, (lps k).WF) (hok : Allowed satoshis gp R lps e)
    (h : step render satoshis gp lps e = some lps') : Follows gp R lps lps' := by
  cases step_handled h with
  | idle => exact .refl lps
  | scan hscan => exact .update (scan_acts (hwf _) hok hscan)
  | assetevent ev validaddr =>
    unfold multigatewayAssetevent
    split
    · exact .refl lps
    · split
      · exact .update (assetcommand_acts ev validaddr)
      · exact .refl lps
  | depositConfirmed hdecoded =>
    refine (decodeDepositconfirmedJson_follows hdecoded).trans ?_
    split
    · exact enqueueRetry_follows _ _ _
    · exact .refl _
  | retry hretry => exact retryAll_follows hretry
  | transfer coinid txid confirms => exact .update (transferAssets_acts txid confirms)
  | bind hmsig => exact .update (updateAcctBinding_acts _ _ (hok _ hmsig))

/-- **A run is a sequence of acts on each coin**, when its steps keep to the rules. -/
theorem run_acts {es : List Step} (hwf : ∀ k, (lps k).WF)
    (hok : Run.Along (step render satoshis gp) (Allowed satoshis gp R) lps es)
    (h : Run.run (step render satoshis gp) lps es = some lps') : Follows gp R lps lps' := by
  refine Run.run_invariant (fun hok hstep hmid => ?_) hok h (Follows.refl lps)
  exact hmid.trans (step_acts (hmid.wf hwf) hok hstep)

theorem init_wf (k : Nat) : (init k).WF := wf_init

end Node
end NXTServices.Gateway
