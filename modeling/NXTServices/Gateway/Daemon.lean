import NXTServices.Gateway.Coinloop

/-!
# The replies of the coin daemon: `add_bitcoind_uniquetxids` of `multigateway/bitcoin.h`

* `BlockReply`, `TxReply` : the texts that `bitcoind_RPC` gives back for a block and its transactions;
* `addUniquetxids` : the call with these texts, each block through `scanBlock`;
* `Applied` : each transaction of the blocks has gone to `process_vouts` and `process_vins`;
* `applied_iff` : when an answer of `0` means that.

The texts are shorter than the buffers that they are copied to.
-/

namespace NXTServices.Gateway
open Json hiding true false

/-! ## Texts -/

/-- The reply of a call, `none` for a null pointer or an empty text. -/
def given (reply : Option Text) : Option Text := reply.filter (· ≠ [])

structure TxReply where
  getrawtransaction : Option Text
  decoderawtransaction : Option Text
  am : Nat → BitVec 64

/-- `tx i` is about the transaction at `i` of the block. -/
structure BlockReply where
  getblockhash : Option Text
  getblock : Option Text
  tx : Nat → TxReply

section
variable (render : Text → Text)

/-- What `update_coin_values` gets to decode. -/
def TxReply.decoded (reply : TxReply) : Option Json :=
  (given reply.getrawtransaction).bind fun _ => (given reply.decoderawtransaction).bind (cJSONParse render)

/-- The block, when its text arrives and parses. -/
def BlockReply.json (reply : BlockReply) : Option Json := (given reply.getblock).bind (cJSONParse render)

/-- A block without `"tx"` is `none`: `cJSON_GetArraySize` reads through the null pointer. -/
def BlockReply.answer (reply : BlockReply) : Option BlockAnswer :=
  match given reply.getblockhash, given reply.getblock with
  | some _, some blocktxt =>
    match cJSONParse render blocktxt with
    | none => some .unparsed
    | some json =>
      (getObjectItem json "tx".toList).map fun txobj =>
        .parsed txobj fun i => { am := (reply.tx i).am, decoded := (reply.tx i).decoded render }
  | _, _ => some .failed

/-- The loop over `iter`, on the blocks still to come. -/
def scanReplies (c : Coin) (rtmode : Bool) : List (Int × BlockReply) → Loop → Option (Int × Loop)
  | [], s => some (0, s)
  | (block, reply) :: blocks, s =>
    (reply.answer render).bind fun answer =>
      match scanBlock c s block rtmode answer with
      | (false, s) => some (-1, s)
      | (true, s) => scanReplies c rtmode blocks s

/-- The blocks of a call, with the replies for each. -/
def askedBlocks (c : Coin) (blockheight : Int) (rtmode : Bool) (replies : Nat → BlockReply) :
    List (Int × BlockReply) :=
  (blockheight, replies 0) :: if rtmode then [(blockheight - c.minConfirms, replies 1)] else []

def addUniquetxids (c : Coin) (s : Loop) (blockheight : Int) (rtmode : Bool) (replies : Nat → BlockReply) :
    Option (Int × Loop) :=
  scanReplies render c rtmode (askedBlocks c blockheight rtmode replies) s

theorem addUniquetxids_eq (c : Coin) (s : Loop) (blockheight : Int) (rtmode : Bool) (replies : Nat → BlockReply)
    (answers : Nat → BlockAnswer) (h : ∀ iter, (replies iter).answer render = some (answers iter)) :
    addUniquetxids render c s blockheight rtmode replies =
      some (addBitcoindUniquetxids c s blockheight rtmode answers) := by
  unfold addUniquetxids askedBlocks addBitcoindUniquetxids scanReplies
  rw [h 0, Option.bind_some]
  rcases scanBlock c s blockheight rtmode (answers 0) with ⟨_ | _, s₁⟩
  · rfl
  · cases rtmode with
    | false => rfl
    | true =>
      simp only [if_true, scanReplies, h 1, Option.bind_some]
      rcases scanBlock c s₁ (blockheight - c.minConfirms) true (answers 1) with ⟨_ | _, s₂⟩ <;> rfl

/-! ## What an answer of `0` should mean -/

/-- The txids of a block, in its order. -/
def blockTxids (json : Json) : List Text :=
  (((getObjectItem json "tx".toList).map items).getD []).map fun txidobj => copyCJSON (some txidobj)

/-- The step hands the decoded transaction on; an empty text names none. -/
def Handed (c : Coin) (txid : Text) (e : Step) : Prop :=
  txid = [] ∨ ∃ k decoded, e = .scan c.coinid txid k (some decoded)

/-- `new` hands each transaction of the block on. -/
def BlockApplied (c : Coin) (block : Int × BlockReply) (new : List Step) : Prop :=
  ∃ json, block.2.json render = some json ∧ List.Forall₂ (Handed c) (blockTxids json) new

/-- From `s` to `s'` every transaction of the blocks is handed on. -/
def Applied (c : Coin) (blocks : List (Int × BlockReply)) (s s' : Loop) : Prop :=
  ∃ news : List (List Step), s'.steps = s.steps ++ news.flatten ∧ List.Forall₂ (BlockApplied render c) blocks news

/-- The call gets as far as the end of the block. -/
structure BlockReply.Arrives (reply : BlockReply) : Prop where
  blockhash : (given reply.getblockhash).isSome
  blocktxt : (given reply.getblock).isSome
  tx : ∀ json, reply.json render = some json → (getObjectItem json "tx".toList).isSome

/-- The block parses, and so does each of its transactions. -/
def BlockReply.Readable (reply : BlockReply) : Prop :=
  ∃ json, reply.json render = some json ∧
    ∀ i txid, (blockTxids json)[i]? = some txid → txid ≠ [] → ((reply.tx i).decoded render).isSome

end

/-! ## A block -/

section
variable {render : Text → Text} {c : Coin} {s s' : Loop} {block : Int} {rtmode : Bool} {reply : BlockReply}

/-- The steps of the transactions, as they are met at this point. -/
def replySteps (render : Text → Text) (c : Coin) (height : Int) (rtmode : Bool) (block : Int × BlockReply) :
    List Step :=
  ((block.2.answer render).map (blockSteps c.coinid fun am =>
    { blockheight := block.1, rtmode := rtmode, height := height, am := am })).getD []

/-- A block that arrives is worked off. -/
theorem scanBlock_of_arrives (c : Coin) (s : Loop) (block : Int) (rtmode : Bool) (h : reply.Arrives render) :
    ∃ answer s', reply.answer render = some answer ∧ scanBlock c s block rtmode answer = (true, s') ∧
      s'.blockheight = s.blockheight ∧ s'.steps =
      s.steps ++ replySteps render c s.blockheight rtmode (block, reply) := by
  obtain ⟨hash, hhash⟩ := Option.isSome_iff_exists.mp h.blockhash
  obtain ⟨blocktxt, htxt⟩ := Option.isSome_iff_exists.mp h.blocktxt
  have hjson : reply.json render = cJSONParse render blocktxt := by
    show (given reply.getblock).bind (cJSONParse render) = _
    rw [htxt, Option.bind_some]
  cases hparse : cJSONParse render blocktxt with
  | none =>
    have hans : reply.answer render = some .unparsed := by simp [BlockReply.answer, hhash, htxt, hparse]
    refine ⟨_, _, hans, rfl, rfl, ?_⟩
    simp [replySteps, hans]
  | some json =>
    obtain ⟨txobj, htx⟩ := Option.isSome_iff_exists.mp (h.tx json (hjson.trans hparse))
    have hans : reply.answer render = some (.parsed txobj fun i =>
        { am := (reply.tx i).am, decoded := (reply.tx i).decoded render }) := by
      simp only [BlockReply.answer, hhash, htxt, hparse, htx, Option.map_some]
    refine ⟨_, _, hans, rfl, rfl, ?_⟩
    simp [replySteps, hans]

/-- Without them the call does not come back with `0`. -/
theorem scanReplies_of_not_arrives (blocks : List (Int × BlockReply)) (h : ¬ reply.Arrives render) :
    ¬ ∃ s', scanReplies render c rtmode ((block, reply) :: blocks) s = some (0, s') := by
  rintro ⟨s', hret⟩
  apply h
  unfold scanReplies at hret
  obtain ⟨answer, hans, hret⟩ := Option.bind_eq_some_iff.mp hret
  unfold BlockReply.answer at hans
  split at hans
  · next hash blocktxt hhash htxt =>
    refine ⟨by simp [hhash], by simp [htxt], fun json hjson => ?_⟩
    have hparse : cJSONParse render blocktxt = some json := by
      rw [← hjson, BlockReply.json, htxt, Option.bind_some]
    rw [hparse] at hans
    obtain ⟨txobj, htx, -⟩ := Option.map_eq_some_iff.mp hans
    exact Option.isSome_iff_exists.mpr ⟨txobj, htx⟩
  · obtain rfl := Option.some.inj hans
    cases hret

theorem replySteps_of_json {json : Json} {height : Int} (harr : reply.Arrives render)
    (h : reply.json render = some json) :
    replySteps render c height rtmode (block, reply) = (blockTxids json).zipIdx.map fun (txid, i) =>
      .scan c.coinid txid { blockheight := block, rtmode := rtmode, height := height, am := (reply.tx i).am }
        ((reply.tx i).decoded render) := by
  obtain ⟨hash, hhash⟩ := Option.isSome_iff_exists.mp harr.blockhash
  obtain ⟨blocktxt, htxt⟩ := Option.isSome_iff_exists.mp harr.blocktxt
  obtain ⟨txobj, htx⟩ := Option.isSome_iff_exists.mp (harr.tx json h)
  have hparse : cJSONParse render blocktxt = some json := by
    rw [← h, BlockReply.json, htxt, Option.bind_some]
  simp only [replySteps, BlockReply.answer, hhash, htxt, hparse, htx, Option.map_some, Option.getD_some, blockSteps,
    blockTxids, List.zipIdx_map, List.map_map]
  rfl

/-- **A block is handed on** when it is readable, and only then. -/
theorem blockApplied_replySteps_iff {height : Int} (harr : reply.Arrives render) :
    BlockApplied render c (block, reply) (replySteps render c height rtmode (block, reply)) ↔
    reply.Readable render := by
  unfold BlockApplied BlockReply.Readable
  apply exists_congr
  intro json
  apply and_congr_right
  intro hjson
  have hjson : reply.json render = some json := hjson
  rw [replySteps_of_json harr hjson, List.forall₂_iff_get]
  constructor
  · rintro ⟨-, hall⟩ i txid htxid hne
    obtain ⟨hi, rfl⟩ := List.getElem?_eq_some_iff.mp htxid
    rcases hall i hi (by simpa using hi) with h | ⟨k, decoded, h⟩
    · exact absurd h hne
    · simp only [List.get_eq_getElem, List.getElem_map, List.getElem_zipIdx, Step.scan.injEq, Nat.zero_add] at h
      simp [h.2.2.2]
  · intro hread
    refine ⟨by simp, fun i hi hi' => ?_⟩
    by_cases hne : (blockTxids json)[i] = []
    · exact .inl hne
    · obtain ⟨decoded, hdec⟩ := Option.isSome_iff_exists.mp (hread i _ (List.getElem?_eq_getElem hi) hne)
      refine .inr ⟨{ blockheight := block, rtmode := rtmode, height := height, am := (reply.tx i).am }, decoded, ?_⟩
      simp only [List.get_eq_getElem, List.getElem_map, List.getElem_zipIdx, Nat.zero_add, hdec]

end

/-! ## A call -/

section
variable {render : Text → Text} {c : Coin} {rtmode : Bool}

/-- When every block arrives, the call answers `0` and makes the steps of each. -/
theorem scanReplies_of_arrives (c : Coin) (rtmode : Bool) {blocks : List (Int × BlockReply)}
    (h : ∀ b ∈ blocks, b.2.Arrives render) (s : Loop) :
    ∃ s', scanReplies render c rtmode blocks s = some (0, s') ∧
      s'.steps = s.steps ++ (blocks.map (replySteps render c s.blockheight rtmode)).flatten := by
  induction blocks generalizing s with
  | nil => exact ⟨s, rfl, by simp⟩
  | cons b blocks ih =>
    obtain ⟨block, reply⟩ := b
    obtain ⟨answer, s₁, hans, hscan, hheight, hsteps⟩ := scanBlock_of_arrives c s block rtmode
      (h _ List.mem_cons_self)
    obtain ⟨s', hret, hsteps'⟩ := ih (fun b hb => h b (List.mem_cons_of_mem _ hb)) s₁
    refine ⟨s', ?_, ?_⟩
    · unfold scanReplies
      rw [hans, Option.bind_some, hscan]
      exact hret
    · rw [hsteps', hsteps, hheight, List.append_assoc]
      rfl

/-- It answers `0` only then. -/
theorem arrives_of_scanReplies {blocks : List (Int × BlockReply)} {s s' : Loop}
    (h : scanReplies render c rtmode blocks s = some (0, s')) : ∀ b ∈ blocks, b.2.Arrives render := by
  induction blocks generalizing s with
  | nil => simp
  | cons b blocks ih =>
    obtain ⟨block, reply⟩ := b
    have harr : reply.Arrives render := by
      by_contra hnot
      exact scanReplies_of_not_arrives blocks hnot ⟨s', h⟩
    obtain ⟨answer, s₁, hans, hscan, -⟩ := scanBlock_of_arrives c s block rtmode harr
    unfold scanReplies at h
    rw [hans, Option.bind_some, hscan] at h
    intro b hb
    rcases List.mem_cons.mp hb with rfl | hb
    · exact harr
    · exact ih h b hb

theorem length_of_blockApplied {b : Int × BlockReply} {new : List Step} {height : Int} (harr : b.2.Arrives render)
    (h : BlockApplied render c b new) : new.length = (replySteps render c height rtmode b).length := by
  obtain ⟨json, hjson, hall⟩ := h
  rw [← hall.length_eq, replySteps_of_json harr hjson]
  simp

/-- The steps handed on are the steps made. -/
theorem applied_iff_forall {blocks : List (Int × BlockReply)} {s s' : Loop}
    (harr : ∀ b ∈ blocks, b.2.Arrives render)
    (hsteps : s'.steps = s.steps ++ (blocks.map (replySteps render c s.blockheight rtmode)).flatten) :
    Applied render c blocks s s' ↔ ∀ b ∈ blocks, b.2.Readable render := by
  have happly : ∀ b ∈ blocks, BlockApplied render c b (replySteps render c s.blockheight rtmode b) ↔
      b.2.Readable render :=
    fun b hb => blockApplied_replySteps_iff (harr b hb)
  constructor
  · rintro ⟨news, hnews, hall⟩
    have hflat : news.flatten = (blocks.map (replySteps render c s.blockheight rtmode)).flatten :=
      List.append_cancel_left (hnews.symm.trans hsteps)
    have hlen : blocks.map (fun b => (replySteps render c s.blockheight rtmode b).length) = news.map List.length := by
      rw [← List.forall₂_eq_eq_eq, List.forall₂_map_left_iff, List.forall₂_map_right_iff]
      apply List.Forall₂.imp _ ((List.forall₂_and_left _ _).mpr ⟨harr, hall⟩)
      rintro b new ⟨hb, h⟩
      exact (length_of_blockApplied hb h).symm
    have hsame : news = blocks.map (replySteps render c s.blockheight rtmode) := by
      rw [List.eq_iff_flatten_eq, List.map_map]
      exact ⟨hflat, hlen.symm⟩
    rw [hsame, List.forall₂_map_right_iff, List.forall₂_same] at hall
    exact fun b hb => (happly b hb).mp (hall b hb)
  · intro hread
    refine ⟨_, hsteps, List.forall₂_map_right_iff.mpr (List.forall₂_same.mpr fun b hb => ?_)⟩
    exact (happly b hb).mpr (hread b hb)

/-- **Success means the block was applied** exactly when all that arrives can be read. -/
theorem applied_iff (s : Loop) (blockheight : Int) (replies : Nat → BlockReply) :
    (∀ s', addUniquetxids render c s blockheight rtmode replies = some (0, s') →
        Applied render c (askedBlocks c blockheight rtmode replies) s s') ↔
      ((∀ b ∈ askedBlocks c blockheight rtmode replies, b.2.Arrives render) →
        ∀ b ∈ askedBlocks c blockheight rtmode replies, b.2.Readable render) := by
  unfold addUniquetxids
  generalize askedBlocks c blockheight rtmode replies = blocks
  constructor
  · intro happ harr
    obtain ⟨s', hret, hsteps⟩ := scanReplies_of_arrives c rtmode harr s
    exact (applied_iff_forall harr hsteps).mp (happ s' hret)
  · intro hread s' hret
    have harr := arrives_of_scanReplies hret
    obtain ⟨s₁, hret₁, hsteps⟩ := scanReplies_of_arrives c rtmode harr s
    obtain rfl : s₁ = s' := by simpa [hret] using hret₁.symm
    exact (applied_iff_forall harr hsteps).mpr (hread harr)

end

/-- A block with one transaction, which the daemon does not give back. -/
def silentTx : Nat → BlockReply := fun _ =>
  { getblockhash := some "00".toList
    getblock := some "\x7b\"tx\":[\"t1\"]\x7d".toList
    tx := fun _ => { getrawtransaction := none, decoderawtransaction := none, am := fun _ => 0#64 } }

/-- Its one transaction is lost. -/
theorem not_forall_applied :
    ¬ ∀ (render : Text → Text) (c : Coin) (s s' : Loop) (blockheight : Int) (rtmode : Bool)
    (replies : Nat → BlockReply),
      addUniquetxids render c s blockheight rtmode replies = some (0, s') →
        Applied render c (askedBlocks c blockheight rtmode replies) s s' := by
  intro h
  obtain ⟨json, hjson, htxids⟩ := Option.map_eq_some_iff.mp
    (show ((silentTx 0).json id).map blockTxids = some ["t1".toList] by decide +kernel)
  have htx : ((silentTx 0).json id).all fun json => (getObjectItem json "tx".toList).isSome := by decide +kernel
  have harr : ∀ b ∈ askedBlocks ((smallGateway 0).coin 4) 10 Bool.false silentTx, b.2.Arrives id := by
    intro b hb
    obtain rfl := List.mem_singleton.mp hb
    refine ⟨by decide, by decide, fun json' hjson' => ?_⟩
    have hjson' : (silentTx 0).json id = some json' := hjson'
    rw [hjson'] at htx
    exact htx
  obtain ⟨s', hret, hsteps⟩ := scanReplies_of_arrives ((smallGateway 0).coin 4) Bool.false harr
    { blockheight := 10 }
  obtain ⟨json', hjson', hread⟩ := (applied_iff_forall harr hsteps).mp (h id _ _ s' 10 Bool.false silentTx hret)
    (10, silentTx 0) List.mem_cons_self
  obtain rfl : json = json' := Option.some.inj (hjson.symm.trans hjson')
  have hdec := hread 0 "t1".toList (by rw [htxids]; rfl) (by decide)
  exact absurd hdec (by decide)

end NXTServices.Gateway
