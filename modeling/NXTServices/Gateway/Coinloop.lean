import NXTServices.Gateway.Event

/-!
# Which blocks are scanned: `Coinloop` of `multigateway.h`

* `addBitcoindUniquetxids` : one block, or in realtime two, with the answers of the daemon;
* `coinloop` : what a round of the loop does for one coin that has a daemon;
* `ScannedFrom` : the blocks whose confirmed scan has finished, at any round;
* `coinloop_scanned` : no block from the first one on is left out.

Left out are the pipelines of deposit addresses and of withdrawals, which touch neither the height nor
the scans. Heights do not wrap: a run would have to scan `2 ^ 31` blocks before they do.
-/

namespace NXTServices.Gateway
open Json hiding true false

/-! ## A block -/

structure TxAnswer where
  am : Nat → BitVec 64
  decoded : Option Json

/-- The answers of the daemon about a block: `getblockhash` or `getblock` fails, the text of the block
does not parse, or it does, with `txobj` in its field `tx`. On a block without the field the call does not
return: `cJSON_GetArraySize` reads through the null pointer. -/
inductive BlockAnswer where
  | failed
  | unparsed
  | parsed (txobj : Json) (tx : Nat → TxAnswer)

/-- The coin's part of `struct gateway_info`, with the blocks whose scan has finished, each with the
`isconfirmed` of its transactions, and with the steps that the node has made. -/
structure Loop where
  blockheight : Int
  initdone : Bool := false
  scanned : List (Int × Nat) := []
  steps : List Step := []

/-- The transactions of a block. -/
def blockSteps (coinid : Nat) (sighting : (Nat → BitVec 64) → Sighting) : BlockAnswer → List Step
  | .parsed txobj tx =>
    txobj.items.zipIdx.map fun (txidobj, i) =>
      .scan coinid (copyCJSON (some txidobj)) (sighting (tx i).am) (tx i).decoded
  | _ => []

/-- The body of the loop over `iter`: the answer is false on failure. -/
def scanBlock (c : Coin) (s : Loop) (block : Int) (rtmode : Bool) (answer : BlockAnswer) : Bool × Loop :=
  let sighting (am : Nat → BitVec 64) : Sighting :=
    { blockheight := block, rtmode := rtmode, height := s.blockheight, am := am }
  match answer with
  | .failed => (false, s)
  | answer =>
    (true, { s with
      scanned := s.scanned ++ [(block, (sighting fun _ => 0#64).isconfirmed c)]
      steps := s.steps ++ blockSteps c.coinid sighting answer })

/-- `answers` are those for `iter` `0` and `1`. -/
def addBitcoindUniquetxids (c : Coin) (s : Loop) (blockheight : Int) (rtmode : Bool)
    (answers : Nat → BlockAnswer) : Int × Loop :=
  match scanBlock c s blockheight rtmode (answers 0) with
  | (false, s) => (-1, s)
  | (true, s) =>
    if rtmode then
      match scanBlock c s (blockheight - c.minConfirms) rtmode (answers 1) with
      | (false, s) => (-1, s)
      | (true, s) => (0, s)
    else (0, s)

/-! ## The loop -/

structure TransferAnswer where
  txid : Nat → BitVec 64
  confirms : Nat → Int

/-- What a round of the loop meets: the answers of `get_blockheight` and of the daemon, whether there is
a new block of NXT, and whether the network is healthy (the debug build does not ask). -/
structure Round where
  height : Int
  historical : Nat → BlockAnswer
  initlist : Nat → Nat → BlockAnswer
  newNXT : Bool
  transfer : TransferAnswer
  rtheight : Int
  healthy : Bool
  realtime : Nat → BlockAnswer
  rttransfer : TransferAnswer

def Loop.step (s : Loop) (e : Step) : Loop := { s with steps := s.steps ++ [e] }

/-- The blocks of `initlist`, from number `i` on. -/
def scanInitlist (c : Coin) (answers : Nat → Nat → BlockAnswer) : List Int → Nat → Loop → Loop
  | [], _, s => s
  | block :: blocks, i, s =>
    scanInitlist c answers blocks (i + 1) (addBitcoindUniquetxids c s block false (answers i)).2

def rtcoinloop (c : Coin) (s : Loop) (p : Round) : Loop :=
  let s := if p.newNXT then s.step (.transfer c.coinid p.transfer.txid p.transfer.confirms) else s
  if s.blockheight ≤ p.rtheight ∧ p.healthy then
    let (retval, s) := addBitcoindUniquetxids c s s.blockheight true p.realtime
    let flag : Int := if retval = 0 then 1 else 0
    let s := s.step (.retry c.coinid)
    let s :=
      if s.blockheight = p.rtheight then s.step (.transfer c.coinid p.rttransfer.txid p.rttransfer.confirms) else s
    { s with blockheight := s.blockheight + flag }
  else s

def coinloop (c : Coin) (initlist : List Int) (s : Loop) (p : Round) : Loop :=
  if s.initdone then rtcoinloop c s p
  else if s.blockheight ≤ p.height - c.minConfirms - 1 then
    let (retval, s) := addBitcoindUniquetxids c s s.blockheight false p.historical
    if retval = 0 then { s with blockheight := s.blockheight + 1 } else s
  else rtcoinloop c (scanInitlist c p.initlist initlist 0 { s with initdone := true }) p

/-- The heights whose confirmed scan has finished. -/
def Loop.confirmed (s : Loop) : List Int := (s.scanned.filter fun scan => scan.2 ≠ 0).map Prod.fst

/-- The confirmed blocks at a round. `start` is the height at which the realtime part has begun (the
height itself before that), and `listed` are the blocks of `initlist` that the daemon knew. -/
structure ScannedFrom (c : Coin) (initlist : List Int) (first : Int) (s : Loop) : Prop where
  all : ∀ h, first ≤ h → h ≤ s.blockheight - 1 - c.minConfirms → h ∈ s.confirmed
  only : ∃ start listed, first ≤ start ∧ start ≤ s.blockheight ∧ listed ⊆ initlist ∧ ∀ h, h ∈ s.confirmed ↔
    first ≤ h ∧ h < start ∨ start - c.minConfirms ≤ h ∧ h < s.blockheight - c.minConfirms ∨ h ∈ listed

/-! ## What one call scans -/

section
variable {c : Coin} {s s' : Loop}

/-- Each transaction that the node has met is one of a block whose scan has finished. -/
def Logged (c : Coin) (s : Loop) : Prop :=
  ∀ coinid txid k decoded, Step.scan coinid txid k decoded ∈ s.steps → (k.blockheight, k.isconfirmed c) ∈ s.scanned

/-- The calls that scan change neither the height nor the phase. -/
structure Scans (c : Coin) (s s' : Loop) (blocks : List Int) : Prop where
  blockheight : s'.blockheight = s.blockheight
  initdone : s'.initdone = s.initdone
  confirmed : s'.confirmed = s.confirmed ++ blocks
  logged : Logged c s → Logged c s'

theorem Scans.refl (s : Loop) : Scans c s s [] := ⟨rfl, rfl, by simp, id⟩

theorem Scans.trans {s₁ s₂ : Loop} {bs bs' : List Int} (h : Scans c s s₁ bs) (h' : Scans c s₁ s₂ bs') :
    Scans c s s₂ (bs ++ bs') where
  blockheight := h'.blockheight.trans h.blockheight
  initdone := h'.initdone.trans h.initdone
  confirmed := by rw [h'.confirmed, h.confirmed, List.append_assoc]
  logged := h'.logged ∘ h.logged

theorem Scans.step {blocks : List Int} (h : Scans c s s' blocks) {e : Step}
    (he : ∀ coinid txid k decoded, e ≠ .scan coinid txid k decoded) : Scans c s (s'.step e) blocks := by
  refine ⟨h.blockheight, h.initdone, h.confirmed, fun hlog coinid txid k decoded hmem => ?_⟩
  rcases List.mem_append.mp hmem with hmem | hmem
  · exact h.logged hlog coinid txid k decoded hmem
  · exact absurd (List.mem_singleton.mp hmem).symm (he coinid txid k decoded)

theorem Scans.stepIf {blocks : List Int} (h : Scans c s s' blocks) (P : Prop) [Decidable P] {e : Step}
    (he : ∀ coinid txid k decoded, e ≠ .scan coinid txid k decoded) :
    Scans c s (if P then s'.step e else s') blocks := by
  split
  · exact h.step he
  · exact h

theorem mem_blockSteps {coinid : Nat} {sighting : (Nat → BitVec 64) → Sighting} {answer : BlockAnswer}
    {coinid' : Nat} {txid : Text} {k : Sighting} {decoded : Option Json}
    (h : Step.scan coinid' txid k decoded ∈ blockSteps coinid sighting answer) : ∃ am, k = sighting am := by
  cases answer with
  | failed => cases h
  | unparsed => cases h
  | parsed txobj tx =>
    obtain ⟨⟨txidobj, i⟩, -, heq⟩ := List.mem_map.mp h
    cases heq
    exact ⟨_, rfl⟩

/-- A block is confirmed in the historical part, and in realtime when it is deep enough. -/
theorem scanBlock_cases (block : Int) (rtmode : Bool) (answer : BlockAnswer) :
    scanBlock c s block rtmode answer = (false, s) ∨
      ∃ s', scanBlock c s block rtmode answer = (true, s') ∧
        Scans c s s' (if rtmode = false ∨ block ≤ s.blockheight - c.minConfirms then [block] else []) := by
  have hdone (answer : BlockAnswer) : Scans c s
      { s with
        scanned := s.scanned ++
          [(block, Sighting.isconfirmed
            { blockheight := block, rtmode := rtmode, height := s.blockheight, am := fun _ => 0#64 } c)]
        steps := s.steps ++ blockSteps c.coinid
          (fun am => { blockheight := block, rtmode := rtmode, height := s.blockheight, am := am }) answer }
      (if rtmode = false ∨ block ≤ s.blockheight - c.minConfirms then [block] else []) := by
    refine ⟨rfl, rfl, ?_, fun hlog coinid txid k decoded hmem => ?_⟩
    · unfold Loop.confirmed Sighting.isconfirmed
      cases rtmode with
      | false => simp
      | true =>
        by_cases hdeep : block ≤ s.blockheight - c.minConfirms
        · simp [hdeep]
        · simp [hdeep]
    · rcases List.mem_append.mp hmem with hmem | hmem
      · exact List.mem_append_left _ (hlog coinid txid k decoded hmem)
      · obtain ⟨am, rfl⟩ := mem_blockSteps hmem
        exact List.mem_append_right _ (List.mem_singleton_self _)
  cases answer with
  | failed => exact .inl rfl
  | unparsed => exact .inr ⟨_, rfl, hdone .unparsed⟩
  | parsed txobj tx => exact .inr ⟨_, rfl, hdone (.parsed txobj tx)⟩

theorem addBitcoindUniquetxids_historical (block : Int) (answers : Nat → BlockAnswer) :
    addBitcoindUniquetxids c s block false answers = (-1, s) ∨
      ∃ s', addBitcoindUniquetxids c s block false answers = (0, s') ∧ Scans c s s' [block] := by
  unfold addBitcoindUniquetxids
  rcases scanBlock_cases (c := c) (s := s) block false (answers 0) with h | ⟨s', h, hscan⟩
  · rw [h]
    exact .inl rfl
  · rw [h]
    exact .inr ⟨s', rfl, by simpa using hscan⟩

/-- The newest block is not deep enough, the other one is. -/
theorem addBitcoindUniquetxids_realtime (hconfirms : 1 ≤ c.minConfirms) (answers : Nat → BlockAnswer) :
    ∃ ret s', addBitcoindUniquetxids c s s.blockheight true answers = (ret, s') ∧
      Scans c s s' (if ret = 0 then [s.blockheight - c.minConfirms] else []) := by
  unfold addBitcoindUniquetxids
  rcases scanBlock_cases (c := c) (s := s) s.blockheight true (answers 0) with h | ⟨s₁, h, hfirst⟩
  · rw [h]
    exact ⟨-1, s, rfl, .refl s⟩
  · have hnone : Scans c s s₁ [] := by
      have hnew : ¬ s.blockheight ≤ s.blockheight - c.minConfirms := by omega
      simpa [hnew] using hfirst
    rw [h]
    rcases scanBlock_cases (c := c) (s := s₁) (s.blockheight - c.minConfirms) true (answers 1) with
      h₁ | ⟨s₂, h₁, hsecond⟩
    · exact ⟨-1, s₁, by simp [h₁], by simpa using hnone⟩
    · refine ⟨0, s₂, by simp [h₁], ?_⟩
      rw [hnone.blockheight] at hsecond
      simpa using hnone.trans hsecond

theorem scanInitlist_scans (answers : Nat → Nat → BlockAnswer) (blocks : List Int) (i : Nat) (s : Loop) :
    ∃ listed, listed ⊆ blocks ∧ Scans c s (scanInitlist c answers blocks i s) listed := by
  induction blocks generalizing i s with
  | nil => exact ⟨[], by simp, .refl s⟩
  | cons block blocks ih =>
    unfold scanInitlist
    rcases addBitcoindUniquetxids_historical (c := c) (s := s) block (answers i) with h | ⟨s', h, hscan⟩
    · obtain ⟨listed, hsub, hrest⟩ := ih (i + 1) s
      rw [h]
      exact ⟨listed, fun b hb => List.mem_cons_of_mem _ (hsub hb), hrest⟩
    · obtain ⟨listed, hsub, hrest⟩ := ih (i + 1) s'
      rw [h]
      exact ⟨block :: listed, List.cons_subset_cons block hsub, hscan.trans hrest⟩

/-- **A realtime round** goes one block on, and confirms the one `min_confirms` below, or does neither. -/
theorem rtcoinloop_cases (hconfirms : 1 ≤ c.minConfirms) (p : Round) :
    ((rtcoinloop c s p).initdone = s.initdone ∧ (Logged c s → Logged c (rtcoinloop c s p))) ∧
      ((rtcoinloop c s p).blockheight = s.blockheight ∧ (rtcoinloop c s p).confirmed = s.confirmed ∨
        (rtcoinloop c s p).blockheight = s.blockheight + 1 ∧
          (rtcoinloop c s p).confirmed = s.confirmed ++ [s.blockheight - c.minConfirms]) := by
  have hscan₁ := (Scans.refl (c := c) s).stepIf (p.newNXT = true)
    (e := .transfer c.coinid p.transfer.txid p.transfer.confirms) nofun
  unfold rtcoinloop
  generalize (if p.newNXT = true then s.step (.transfer c.coinid p.transfer.txid p.transfer.confirms) else s) = s₁
    at hscan₁ ⊢
  dsimp only
  split
  · obtain ⟨ret, s₂, hs₂, hscan₂⟩ := addBitcoindUniquetxids_realtime (s := s₁) hconfirms p.realtime
    rw [hs₂]
    have hscan := ((hscan₁.trans hscan₂).step (e := .retry c.coinid) nofun).stepIf
      ((s₂.step (.retry c.coinid)).blockheight = p.rtheight)
      (e := .transfer c.coinid p.rttransfer.txid p.rttransfer.confirms) nofun
    refine ⟨⟨hscan.initdone, hscan.logged⟩, ?_⟩
    by_cases hret : ret = 0
    · rw [if_pos hret, hscan₁.blockheight, List.nil_append] at hscan
      exact .inr ⟨by simp [hret, hscan.blockheight], hscan.confirmed⟩
    · rw [if_neg hret, List.nil_append] at hscan
      exact .inl ⟨by simp [hret, hscan.blockheight], hscan.confirmed.trans (List.append_nil _)⟩
  · exact ⟨⟨hscan₁.initdone, hscan₁.logged⟩, .inl ⟨hscan₁.blockheight, by simpa using hscan₁.confirmed⟩⟩

end

/-! ## All rounds -/

section
variable {c : Coin} {initlist : List Int} {first : Int} {s : Loop}

/-- What each round keeps. -/
def Kept (c : Coin) (initlist : List Int) (first : Int) (s : Loop) : Prop :=
  ∃ start listed, first ≤ start ∧ start ≤ s.blockheight ∧ (s.initdone = false → start = s.blockheight ∧ listed = []) ∧
    listed ⊆ initlist ∧ ∀ h, h ∈ s.confirmed ↔
      first ≤ h ∧ h < start ∨ start - c.minConfirms ≤ h ∧ h < s.blockheight - c.minConfirms ∨ h ∈ listed

theorem kept_rtcoinloop (hconfirms : 1 ≤ c.minConfirms) (p : Round) (hdone : s.initdone = true)
    (h : Kept c initlist first s) : Kept c initlist first (rtcoinloop c s p) := by
  obtain ⟨start, listed, hfirst, hstart, -, hsub, hiff⟩ := h
  obtain ⟨⟨hphase, -⟩, hcases⟩ := rtcoinloop_cases (s := s) hconfirms p
  rcases hcases with ⟨hheight, hconf⟩ | ⟨hheight, hconf⟩
  · refine ⟨start, listed, hfirst, by rw [hheight]; exact hstart, by simp [hphase, hdone], hsub, fun h => ?_⟩
    rw [hconf, hheight]
    exact hiff h
  · refine ⟨start, listed, hfirst, by rw [hheight]; omega, by simp [hphase, hdone], hsub, fun h => ?_⟩
    rw [hconf, hheight, List.mem_append, List.mem_singleton, hiff h]
    by_cases hlisted : h ∈ listed
    · simp [hlisted]
    · simp only [hlisted, or_false]
      omega

/-- A round of the historical part; the last one leads over to the realtime part. -/
theorem kept_coinloop (hconfirms : 1 ≤ c.minConfirms) (p : Round) (h : Kept c initlist first s) :
    Kept c initlist first (coinloop c initlist s p) := by
  unfold coinloop
  split
  · next hdone => exact kept_rtcoinloop hconfirms p hdone h
  · next hdone =>
    obtain ⟨start, listed, hfirst, -, hphase, -, hiff⟩ := h
    obtain ⟨rfl, rfl⟩ := hphase (by simpa using hdone)
    split
    · rcases addBitcoindUniquetxids_historical (c := c) (s := s) s.blockheight p.historical with h | ⟨s', h, hscan⟩
      · rw [h]
        exact ⟨s.blockheight, [], hfirst, le_rfl, fun _ => ⟨rfl, rfl⟩, by simp, hiff⟩
      · rw [h]
        refine ⟨s.blockheight + 1, [], by omega, ?_, fun _ => ⟨?_, rfl⟩, by simp, fun h => ?_⟩
        · simp [hscan.blockheight]
        · simp [hscan.blockheight]
        · show h ∈ s'.confirmed ↔ _
          rw [hscan.confirmed, List.mem_append, List.mem_singleton, hiff h]
          simp only [if_true, hscan.blockheight, List.not_mem_nil, or_false]
          omega
    · refine kept_rtcoinloop hconfirms p ?_ ?_
      · obtain ⟨listed, -, hscan⟩ := scanInitlist_scans (c := c) p.initlist initlist 0 { s with initdone := true }
        exact hscan.initdone
      · obtain ⟨listed, hsub, hscan⟩ := scanInitlist_scans (c := c) p.initlist initlist 0 { s with initdone := true }
        refine ⟨s.blockheight, listed, hfirst, ?_, ?_, hsub, fun h => ?_⟩
        · exact hscan.blockheight.symm.le
        · rw [hscan.initdone]
          simp
        · rw [hscan.confirmed, List.mem_append]
          have hbefore := hiff h
          have hheight :
              (scanInitlist c p.initlist initlist 0 { s with initdone := true }).blockheight = s.blockheight :=
            hscan.blockheight
          show h ∈ s.confirmed ∨ _ ↔ _
          rw [hbefore, hheight]
          simp [or_assoc]

/-- **No block is skipped** from the first one to `min_confirms` below the height. -/
theorem coinloop_scanned (c : Coin) (hconfirms : 1 ≤ c.minConfirms) (initlist : List Int) (first : Int)
    (ps : List Round) : ScannedFrom c initlist first (ps.foldl (coinloop c initlist) { blockheight := first }) := by
  have hkept : Kept c initlist first (ps.foldl (coinloop c initlist) { blockheight := first }) := by
    induction ps using List.reverseRecOn with
    | nil =>
      refine ⟨first, [], le_rfl, le_rfl, fun _ => ⟨rfl, rfl⟩, by simp, fun h => ?_⟩
      simp only [List.foldl_nil, Loop.confirmed, List.filter_nil, List.map_nil, List.not_mem_nil, or_false, false_iff]
      omega
    | append_singleton ps p ih =>
      rw [List.foldl_append]
      exact kept_coinloop hconfirms p ih
  obtain ⟨start, listed, hfirst, hstart, -, hsub, hiff⟩ := hkept
  refine ⟨fun h hlow hhigh => (hiff h).mpr ?_, start, listed, hfirst, hstart, hsub, hiff⟩
  by_cases hbefore : h < start
  · exact .inl ⟨hlow, hbefore⟩
  · exact .inr (.inl ⟨by omega, by omega⟩)

/-- Every transaction the node is given belongs to a block of `scanned`. -/
theorem coinloop_logged (c : Coin) (hconfirms : 1 ≤ c.minConfirms) (initlist : List Int) (first : Int)
    (ps : List Round) : Logged c (ps.foldl (coinloop c initlist) { blockheight := first }) := by
  induction ps using List.reverseRecOn with
  | nil => exact fun coinid txid k decoded hmem => by cases hmem
  | append_singleton ps p ih =>
    rw [List.foldl_append]
    simp only [List.foldl_cons, List.foldl_nil]
    generalize ps.foldl (coinloop c initlist) { blockheight := first } = s at ih
    unfold coinloop
    split
    · exact (rtcoinloop_cases hconfirms p).1.2 ih
    · split
      · rcases addBitcoindUniquetxids_historical (c := c) (s := s) s.blockheight p.historical with h | ⟨s', h, hscan⟩
        · rw [h]
          exact ih
        · rw [h]
          exact hscan.logged ih
      · obtain ⟨listed, -, hscan⟩ := scanInitlist_scans (c := c) p.initlist initlist 0 { s with initdone := true }
        exact (rtcoinloop_cases hconfirms p).1.2 (hscan.logged ih)

end

/-- A round at a height; the blocks have no transactions. -/
def emptyRound (height : Int) : Round where
  height := height
  historical := fun _ => .parsed (.array []) fun _ => ⟨fun _ => 0#64, none⟩
  initlist := fun _ _ => .failed
  newNXT := false
  transfer := ⟨fun _ => 0#64, fun _ => 0⟩
  rtheight := height
  healthy := true
  realtime := fun _ => .parsed (.array []) fun _ => ⟨fun _ => 0#64, none⟩
  rttransfer := ⟨fun _ => 0#64, fun _ => 0⟩

theorem coinloop_scanned_emptyRound :
    ScannedFrom ((smallGateway 0).coin 4) [] 10
      ([emptyRound 14, emptyRound 14].foldl (coinloop ((smallGateway 0).coin 4) []) { blockheight := 10 }) :=
  coinloop_scanned _ (by decide) [] 10 [emptyRound 14, emptyRound 14]

/-- After one historical block the realtime part begins below the first block: `10` and `8` are scanned,
`9` is not. -/
theorem not_forall_interval :
    ¬ ∀ (c : Coin) (initlist : List Int) (first : Int) (ps : List Round), 1 ≤ c.minConfirms →
      (∀ h, first ≤ h → h ≤ (ps.foldl (coinloop c initlist) { blockheight := first }).blockheight - 1 - c.minConfirms →
        h ∈ (ps.foldl (coinloop c initlist) { blockheight := first }).confirmed) ∧
      ∀ a b h, a ∈ (ps.foldl (coinloop c initlist) { blockheight := first }).confirmed →
        b ∈ (ps.foldl (coinloop c initlist) { blockheight := first }).confirmed → a ≤ h → h ≤ b →
        h ∈ (ps.foldl (coinloop c initlist) { blockheight := first }).confirmed := by
  intro h
  have hnine := (h ((smallGateway 0).coin 4) [] 10 [emptyRound 14, emptyRound 14] (by decide)).2 8 10 9
    (by decide) (by decide) (by decide) (by decide)
  exact absurd hnine (by decide)

end NXTServices.Gateway
