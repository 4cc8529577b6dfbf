import NXTServices.Gateway.State
import NXTServices.Lib.Run
import Mathlib.Data.List.TakeWhile

/-!
# The scan of the history: `NXTloop` in `NXTprotocol.c`

* `processNXTblock` : a block is read, or the request fails and the next block stays;
* `histTurn` : a turn of the loop of `NXTloop` in history mode;
* `Node`, `Chain` : a node whose requests may fail, and the blocks from the start to the termination block;
* `leaves_of_fresh` : the loop is left before the first block that fails twice in a row;
* `complete_iff` : it processes all blocks exactly when there is no such block.
-/

namespace NXTServices.History
open Gateway (int32)
open Json (copyCJSON getCJSONInt getObjectItem)

/-! ## Blocks -/

/-- What `process_NXTblock` returns and stores; `txids` are the transactions that it processes, `none` when the
request fails. -/
structure BlockResult where
  timestamp : Int := 0
  height : Int := 0
  nextblock : Text
  txids : Option (List Text) := none

/-- The items that are read; those behind the end of the array are empty. -/
def allTxids (json transactions : Json) : List Text :=
  (List.range (getCJSONInt json "numberOfTransactions".toList).toNat).map fun i => copyCJSON transactions.items[i]?

/-- `none` when a text does not fit its buffer, the array is missing or the counter of type `int32_t` overflows. -/
def processNXTblock (nextblock : Text) (reply : Option Json) : Option BlockResult :=
  match reply with
  | none => some { nextblock := nextblock }
  | some json =>
    if int32 (getCJSONInt json "errorCode".toList) = 0 then
      let nextblock := copyCJSON (getObjectItem json "nextBlock".toList)
      match getObjectItem json "transactions".toList with
      | none => none
      | some transactions =>
        if nextblock.length < 64 ∧ getCJSONInt json "numberOfTransactions".toList < 2 ^ 31 ∧
            ∀ txid ∈ allTxids json transactions, txid.length < 1024 then
          some
            { timestamp := int32 (getCJSONInt json "timestamp".toList)
              height := int32 (getCJSONInt json "height".toList)
              nextblock := nextblock
              txids := some ((allTxids json transactions).filter (· ≠ [])) }
        else none
    else some { nextblock := nextblock }

/-! ## The loop -/

/-- `requests` are the blocks that were asked for, the last one first, and `processed` the blocks that were read, with
their transactions. -/
structure HistState where
  nextblock : Text
  blockidstr : Text
  lastblock : Text
  timestamp : Int
  nxtHeight : Int
  requests : List Text
  processed : List (Text × List Text)

/-- `getBlock n id` is the answer to the request for block `id` after `n` earlier ones for it. -/
def histTurn (getBlock : Nat → Text → Option Json) (terminationblock : Text) (s : HistState) :
    Option (Run.Turn HistState) :=
  if terminationblock ≠ [] ∧ s.nextblock = terminationblock then some (.left s)
  else
    let s := { s with lastblock := s.blockidstr, blockidstr := s.nextblock }
    if s.blockidstr = [] then some (.again s)
    else
      (processNXTblock s.nextblock (getBlock (s.requests.count s.blockidstr) s.blockidstr)).map fun r =>
        let s :=
          { s with
            nextblock := r.nextblock
            timestamp := r.timestamp
            nxtHeight := max s.nxtHeight r.height
            requests := s.blockidstr :: s.requests
            processed := s.processed ++ (r.txids.map fun txids => (s.blockidstr, txids)).toList }
        if s.nextblock = s.lastblock then .left s else .again s

/-! ## Chains -/

/-- A node. `failure id n` is the answer to request `n` for a block if the request fails: nothing, or JSON with an
error code. -/
structure Node where
  block : Text → Json
  failure : Text → Nat → Option (Option Json)
  errs : ∀ id n json, failure id n = some (some json) → int32 (getCJSONInt json "errorCode".toList) ≠ 0

def Node.getBlock (node : Node) (n : Nat) (id : Text) : Option Json := (node.failure id n).getD (some (node.block id))

/-- `next` is the block after the one in `json`, all of which can be read. -/
structure IsBlock (json : Json) (next : Text) : Prop where
  errorCode : int32 (getCJSONInt json "errorCode".toList) = 0
  nextBlock : copyCJSON (getObjectItem json "nextBlock".toList) = next
  count : getCJSONInt json "numberOfTransactions".toList < 2 ^ 31
  transactions : ∃ transactions, getObjectItem json "transactions".toList = some transactions ∧
    ∀ txid ∈ allTxids json transactions, txid.length < 1024

/-- The blocks `ids` up to the termination block, which is not one of them. -/
structure Linked (node : Node) (terminationblock : Text) (ids : List Text) : Prop where
  nodup : (ids ++ [terminationblock]).Nodup
  ne_nil : ∀ id ∈ ids ++ [terminationblock], id ≠ []
  length_lt : ∀ id ∈ ids ++ [terminationblock], id.length < 64
  answers : (ids ++ [terminationblock]).IsChain fun id next => IsBlock (node.block id) next

/-- The blocks from the start block on. -/
structure Chain (node : Node) where
  ids : List Text
  terminationblock : Text
  linked : Linked node terminationblock ids

/-- The state in which the loop starts, the copy of the handler info being made before any block is read. -/
def Chain.start {node : Node} (c : Chain node) (timestamp nxtHeight : Int) : HistState where
  nextblock := c.ids.headD c.terminationblock
  blockidstr := []
  lastblock := []
  timestamp := timestamp
  nxtHeight := nxtHeight
  requests := []
  processed := []

/-- What is recorded of a block. -/
def Node.record (node : Node) (id : Text) : Text × List Text :=
  (id, ((getObjectItem (node.block id) "transactions".toList).elim [] (allTxids (node.block id))).filter (· ≠ []))

/-- One of the first two requests for the block is answered. -/
def Node.Answers (node : Node) (id : Text) : Prop := node.failure id 0 = none ∨ node.failure id 1 = none

instance (node : Node) (id : Text) : Decidable (node.Answers id) :=
  inferInstanceAs (Decidable (node.failure id 0 = none ∨ node.failure id 1 = none))

section
variable {node : Node} {terminationblock id next : Text} {s : HistState}

/-! ## One turn -/

theorem processNXTblock_of_failure {n : Nat} {reply : Option Json} (h : node.failure id n = some reply)
    (nextblock : Text) : processNXTblock nextblock reply = some { nextblock := nextblock } := by
  cases reply with
  | none => rfl
  | some json => exact if_neg (node.errs id n json h)

theorem processNXTblock_of_isBlock {json : Json} (h : IsBlock json next) (hlen : next.length < 64) (nextblock : Text) :
    ∃ r, processNXTblock nextblock (some json) = some r ∧ r.nextblock = next ∧
      r.txids = some (((getObjectItem json "transactions".toList).elim [] (allTxids json)).filter (· ≠ [])) := by
  obtain ⟨transactions, htransactions, htxids⟩ := h.transactions
  unfold processNXTblock
  dsimp only
  rw [if_pos h.errorCode, htransactions, h.nextBlock]
  dsimp only
  rw [if_pos ⟨hlen, h.count, htxids⟩]
  exact ⟨_, rfl, rfl, rfl⟩

/-- A block that is read. -/
theorem histTurn_of_answer (hnext : s.nextblock = id) (hne : id ≠ []) (hid : id ≠ terminationblock)
    (hanswer : node.failure id (s.requests.count id) = none) (hblock : IsBlock (node.block id) next)
    (hlen : next.length < 64) (hprev : s.blockidstr ≠ next) :
    ∃ s', histTurn node.getBlock terminationblock s = some (.again s') ∧ s'.nextblock = next ∧ s'.blockidstr = id ∧
      s'.requests = id :: s.requests ∧ s'.processed = s.processed ++ [node.record id] := by
  obtain ⟨r, hr, hrnext, htxids⟩ := processNXTblock_of_isBlock hblock hlen id
  have hreply : node.getBlock (s.requests.count id) id = some (node.block id) := by
    unfold Node.getBlock
    rw [hanswer]
    rfl
  unfold histTurn
  dsimp only
  rw [hnext, if_neg fun h => hid h.2, if_neg hne, hreply, hr, Option.map_some, hrnext, htxids]
  exact ⟨_, congrArg some (if_neg (Ne.symm hprev)), rfl, rfl, rfl, rfl⟩

/-- A request that fails; it is the second one when the block before is the same. -/
theorem histTurn_of_failure (hnext : s.nextblock = id) (hne : id ≠ []) (hid : id ≠ terminationblock)
    (hfailure : node.failure id (s.requests.count id) ≠ none) :
    ∃ s', histTurn node.getBlock terminationblock s = some (if s.blockidstr = id then .left s' else .again s') ∧
      s'.nextblock = id ∧ s'.blockidstr = id ∧ s'.requests = id :: s.requests ∧ s'.processed = s.processed := by
  obtain ⟨reply, hreply⟩ := Option.ne_none_iff_exists'.mp hfailure
  have hget : node.getBlock (s.requests.count id) id = reply := by
    unfold Node.getBlock
    rw [hreply]
    rfl
  unfold histTurn
  dsimp only
  rw [hnext, if_neg fun h => hid h.2, if_neg hne, hget, processNXTblock_of_failure hreply, Option.map_some]
  refine ⟨_, congrArg some (if_congr eq_comm rfl rfl), rfl, rfl, rfl, ?_⟩
  exact List.append_nil _

/-! ## The loop -/

theorem Linked.tail {ids : List Text} (h : Linked node terminationblock (id :: ids)) :
    Linked node terminationblock ids where
  nodup := (List.nodup_cons.mp h.nodup).2
  ne_nil id hid := h.ne_nil id (List.mem_cons_of_mem _ hid)
  length_lt id hid := h.length_lt id (List.mem_cons_of_mem _ hid)
  answers := h.answers.tail

theorem headD_mem (ids : List Text) (terminationblock : Text) :
    ids.headD terminationblock ∈ ids ++ [terminationblock] := by
  cases ids with
  | nil => exact List.mem_cons_self
  | cons next ids => exact List.mem_cons_self

theorem Linked.isBlock {ids : List Text} (h : Linked node terminationblock (id :: ids)) :
    IsBlock (node.block id) (ids.headD terminationblock) := by
  cases ids with
  | nil => exact (List.isChain_cons_cons.mp h.answers).1
  | cons next ids => exact (List.isChain_cons_cons.mp h.answers).1

/-- The loop comes to the blocks `ids` for the first time. -/
structure Fresh (terminationblock : Text) (ids : List Text) (s : HistState) : Prop where
  nextblock : s.nextblock = ids.headD terminationblock
  prev : s.blockidstr ∉ ids ++ [terminationblock]
  requests : ∀ id ∈ ids, id ∉ s.requests

theorem not_mem_requests {ids requests : List Text} (hid : id ∉ ids) (hothers : ∀ id' ∈ ids, id' ∉ s.requests)
    (hrequests : requests = id :: s.requests) : ∀ id' ∈ ids, id' ∉ requests := by
  intro id' hid' hin
  rw [hrequests] at hin
  rcases List.mem_cons.mp hin with rfl | hin
  · exact hid hid'
  · exact hothers id' hid' hin

/-- The loop comes to the next block once `id` is read. -/
theorem fresh_of_answer {ids : List Text} {n : Nat} (h : Linked node terminationblock (id :: ids))
    (hnext : s.nextblock = id) (hprev : s.blockidstr ≠ ids.headD terminationblock) (hcount : s.requests.count id = n)
    (hothers : ∀ id ∈ ids, id ∉ s.requests) (hanswer : node.failure id n = none) :
    ∃ s', histTurn node.getBlock terminationblock s = some (.again s') ∧ Fresh terminationblock ids s' ∧
      s'.processed = s.processed ++ [node.record id] := by
  have hid : id ∉ ids ++ [terminationblock] := (List.nodup_cons.mp h.nodup).1
  have hne : id ≠ terminationblock := by
    rintro rfl
    exact hid (List.mem_append_right ids List.mem_cons_self)
  have hlen := h.length_lt _ (List.mem_cons_of_mem id (headD_mem ids terminationblock))
  rw [← hcount] at hanswer
  obtain ⟨s', hturn, hnext', hblockidstr, hrequests, hprocessed⟩ :=
    histTurn_of_answer hnext (h.ne_nil id List.mem_cons_self) hne hanswer h.isBlock hlen hprev
  have hmem : id ∉ ids := fun hin => hid (List.mem_append_left _ hin)
  exact ⟨s', hturn, ⟨hnext', by rwa [hblockidstr], not_mem_requests hmem hothers hrequests⟩, hprocessed⟩

/-- A block with an answer to one of its first two requests is read. -/
theorem fresh_of_answers {ids : List Text} (h : Linked node terminationblock (id :: ids))
    (hs : Fresh terminationblock (id :: ids) s) (hanswers : node.Answers id) :
    ∃ s₁, (∀ s', Run.Leaves (histTurn node.getBlock terminationblock) s₁ s' →
        Run.Leaves (histTurn node.getBlock terminationblock) s s') ∧
      Fresh terminationblock ids s₁ ∧ s₁.processed = s.processed ++ [node.record id] := by
  have hid : id ∉ ids ++ [terminationblock] := (List.nodup_cons.mp h.nodup).1
  have hcount : s.requests.count id = 0 := List.count_eq_zero.mpr (hs.requests id List.mem_cons_self)
  have hothers : ∀ id ∈ ids, id ∉ s.requests := fun id hid => hs.requests id (List.mem_cons_of_mem _ hid)
  by_cases hfirst : node.failure id 0 = none
  · have hprev : s.blockidstr ≠ ids.headD terminationblock := fun heq =>
      hs.prev (heq ▸ List.mem_cons_of_mem id (headD_mem ids terminationblock))
    obtain ⟨s₁, hturn, hfresh, hprocessed⟩ := fresh_of_answer h hs.nextblock hprev hcount hothers hfirst
    exact ⟨s₁, fun s' hleaves => .again hturn hleaves, hfresh, hprocessed⟩
  · have hsecond : node.failure id 1 = none := hanswers.resolve_left hfirst
    have hnext₀ : s.nextblock = id := hs.nextblock
    have hprev₀ : s.blockidstr ≠ id := fun heq => hs.prev (heq ▸ List.mem_cons_self)
    rw [← hcount] at hfirst
    obtain ⟨s₁, hturn, hnext, hblockidstr, hrequests, hprocessed⟩ :=
      histTurn_of_failure hnext₀ (h.ne_nil id List.mem_cons_self)
        (fun heq => hid (heq ▸ List.mem_append_right ids List.mem_cons_self)) hfirst
    rw [if_neg hprev₀] at hturn
    have hprev : s₁.blockidstr ≠ ids.headD terminationblock := by
      rw [hblockidstr]
      exact fun heq => hid (heq ▸ headD_mem ids terminationblock)
    have hcount₁ : s₁.requests.count id = 1 := by rw [hrequests, List.count_cons_self, hcount]
    have hothers₁ : ∀ id ∈ ids, id ∉ s₁.requests :=
      not_mem_requests (fun hin => hid (List.mem_append_left _ hin)) hothers hrequests
    obtain ⟨s₂, hturn₂, hfresh, hprocessed₂⟩ := fresh_of_answer h hnext hprev hcount₁ hothers₁ hsecond
    exact ⟨s₂, fun s' hleaves => .again hturn (.again hturn₂ hleaves), hfresh, hprocessed ▸ hprocessed₂⟩

/-- At a block that fails twice in a row the loop is left. -/
theorem leaves_of_not_answers {ids : List Text} (h : Linked node terminationblock (id :: ids))
    (hs : Fresh terminationblock (id :: ids) s) (hfails : ¬node.Answers id) :
    ∃ s', Run.Leaves (histTurn node.getBlock terminationblock) s s' ∧ s'.processed = s.processed := by
  obtain ⟨hfirst, hsecond⟩ := not_or.mp hfails
  have hid : id ≠ terminationblock := by
    rintro rfl
    exact (List.nodup_cons.mp h.nodup).1 (List.mem_append_right ids List.mem_cons_self)
  have hne := h.ne_nil id List.mem_cons_self
  have hnext₀ : s.nextblock = id := hs.nextblock
  have hprev₀ : s.blockidstr ≠ id := fun heq => hs.prev (heq ▸ List.mem_cons_self)
  have hcount : s.requests.count id = 0 := List.count_eq_zero.mpr (hs.requests id List.mem_cons_self)
  rw [← hcount] at hfirst
  obtain ⟨s₁, hturn, hnext, hblockidstr, hrequests, hprocessed⟩ := histTurn_of_failure hnext₀ hne hid hfirst
  rw [if_neg hprev₀] at hturn
  have hcount₁ : s₁.requests.count id = 1 := by rw [hrequests, List.count_cons_self, hcount]
  rw [← hcount₁] at hsecond
  obtain ⟨s₂, hturn₂, -, -, -, hprocessed₂⟩ := histTurn_of_failure hnext hne hid hsecond
  rw [if_pos hblockidstr] at hturn₂
  exact ⟨s₂, .again hturn (.left hturn₂), hprocessed₂.trans hprocessed⟩

/-- **The loop is left before the first block that fails twice in a row.** -/
theorem leaves_of_fresh {ids : List Text} (h : Linked node terminationblock ids) (hs : Fresh terminationblock ids s) :
    ∃ s', Run.Leaves (histTurn node.getBlock terminationblock) s s' ∧
      s'.processed = s.processed ++ (ids.takeWhile fun id => node.Answers id).map node.record := by
  induction ids generalizing s with
  | nil =>
    refine ⟨s, .left (if_pos ⟨h.ne_nil _ List.mem_cons_self, hs.nextblock⟩), ?_⟩
    exact (List.append_nil _).symm
  | cons id ids ih =>
    by_cases hanswers : node.Answers id
    · obtain ⟨s₁, hback, hfresh, hprocessed⟩ := fresh_of_answers h hs hanswers
      obtain ⟨s', hleaves, heq⟩ := ih h.tail hfresh
      refine ⟨s', hback s' hleaves, ?_⟩
      rw [heq, hprocessed, List.append_assoc, List.takeWhile_cons, if_pos (decide_eq_true hanswers)]
      rfl
    · obtain ⟨s', hleaves, heq⟩ := leaves_of_not_answers h hs hanswers
      refine ⟨s', hleaves, ?_⟩
      rw [heq, List.takeWhile_cons, if_neg (by simpa using hanswers)]
      exact (List.append_nil _).symm

end

theorem Chain.fresh {node : Node} (c : Chain node) (timestamp nxtHeight : Int) :
    Fresh c.terminationblock c.ids (c.start timestamp nxtHeight) where
  nextblock := rfl
  prev h := c.linked.ne_nil [] h rfl
  requests _ _ := List.not_mem_nil

/-- **All blocks are processed, each once**, exactly when for each of them one of the first two requests is answered;
otherwise the loop is left too early. -/
theorem complete_iff (node : Node) (c : Chain node) (timestamp nxtHeight : Int) :
    (∀ s', Run.Leaves (histTurn node.getBlock c.terminationblock) (c.start timestamp nxtHeight) s' →
        s'.processed = c.ids.map node.record) ↔ ∀ id ∈ c.ids, node.Answers id := by
  obtain ⟨s, hleaves, hprocessed⟩ := leaves_of_fresh c.linked (c.fresh timestamp nxtHeight)
  have hself : (c.ids.takeWhile fun id => node.Answers id) = c.ids ↔ ∀ id ∈ c.ids, node.Answers id := by
    rw [List.takeWhile_eq_self_iff]
    simp only [decide_eq_true_eq]
  rw [← hself]
  constructor
  · intro h
    have hids := congrArg (List.map Prod.fst) ((h s hleaves).symm.trans hprocessed)
    have hfst : Prod.fst ∘ node.record = id := rfl
    rw [List.map_append, List.map_map, List.map_map, hfst, List.map_id, List.map_id] at hids
    exact hids.symm
  · intro h s' hleaves'
    obtain rfl := hleaves.unique hleaves'
    rw [hprocessed, h]
    rfl

/-! ## A block that fails twice -/

/-- A node with one block, whose first two requests get no answer. -/
def failingNode : Node where
  block _ := .object [("nextBlock".toList, .string "2".toList), ("transactions".toList, .array [])]
  failure _ n := if n < 2 then some none else none
  errs _ n json h := by
    split at h
    · cases Option.some.inj h
    · cases h

def failingChain : Chain failingNode where
  ids := ["1".toList]
  terminationblock := "2".toList
  linked :=
    { nodup := by decide
      ne_nil := by decide
      length_lt := by decide
      answers := by
        refine List.isChain_pair.mpr ⟨by decide, by decide, by decide, .array [], rfl, ?_⟩
        exact List.forall_mem_nil _ }

/-- The loop is left, and no block is processed. -/
theorem not_forall_history_complete : ¬∀ (node : Node) (c : Chain node) (timestamp nxtHeight : Int) (s' : HistState),
    Run.Leaves (histTurn node.getBlock c.terminationblock) (c.start timestamp nxtHeight) s' →
      s'.processed = c.ids.map node.record := by
  intro h
  have hleaves : ∃ s' : HistState, s'.processed = [] ∧
      Run.Leaves (histTurn failingNode.getBlock "2".toList) (failingChain.start 0 0) s' :=
    ⟨_, rfl, .again rfl (.left rfl)⟩
  obtain ⟨s', hprocessed, hleaves⟩ := hleaves
  have hids := (h failingNode failingChain 0 0 s' hleaves).symm.trans hprocessed
  exact absurd hids (by decide)

end NXTServices.History
