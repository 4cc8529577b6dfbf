import NXTServices.Gateway.Msigjson
import NXTServices.Reprint

/-!
# Calls to a coin daemon: `bitcoind_RPC.c` and the commands of `bitcoin.h`

* `rpcRequest`, `perform`, `postProcess`, `bitcoindRPC` : the text that is posted, the attempts, and what is made of
  the answer;
* `issueBitcoindCommand`, `validateCoinaddr`, `getBlockheight` : the commands;
* `IsRequest`, `IsResponse`, `Bitcoind.Conforms` : JSON-RPC, and a daemon that keeps to it;
* `isRequest_rpcRequest`, `perform_eq` : the text that is posted is a request, and one attempt that goes well is enough;
* `bitcoindRPC_eq` : **a call gives the daemon's result**;
* `validateCoinaddr_eq`, `getBlockheight_eq` : what the commands make of it.
-/

namespace NXTServices.Gateway
open Json hiding null true false
open Torrent (decimal)

/-! ## The call -/

/-- Parameters in brackets stay as they are. -/
def bracket (params : Text) : Text :=
  if params.head? = some '[' ∧ params.getLast? = some ']' then params else '[' :: (params ++ [']'])

def rpcRequest (command params : Text) : Text :=
  "\x7b\"id\":\"jl777\",\"method\":\"".toList ++ command ++ "\",\"params\":".toList ++ bracket params ++ ['\x7d']

/-- What an attempt leaves in memory, and whether it went well. -/
structure Transfer where
  ok : Bool
  memory : Text

/-- The attempts from `k` on. The last one counts even when it fails. -/
def perform (transfer : Nat → Transfer) : Nat → Nat → Text
  | 0, k => (transfer k).memory
  | numretries + 1, k => if (transfer k).ok then (transfer k).memory else perform transfer numretries (k + 1)

def isNull : Json → Bool
  | .null => true
  | _ => false

/-- The text between its quotes. -/
def dequote (retstr : Text) : Text :=
  match retstr with
  | '"' :: cs => if retstr.getLast? = some '"' then cs.dropLast else retstr
  | _ => retstr

/-- `post_process_bitcoind_RPC`, of a command. -/
def postProcess (render : Text → Text) (rpcstr : Text) : Option Text :=
  if rpcstr = [] then some rpcstr
  else
    match cJSONParse render rpcstr with
    | none => none
    | some json =>
      match getObjectItem json "error".toList, getObjectItem json "result".toList with
      | some error, some result => if isNull error ∧ ¬isNull result then some (dequote (cJSONPrint result)) else none
      | _, _ => none

def bitcoindRPC (render : Text → Text) (numretries : Nat) (transfer : Nat → Transfer) : Option Text :=
  postProcess render (perform transfer numretries 0)

/-! ## The commands -/

/-- The value, and the text in `extract` when it is given. `retstr` is what the call gives back. -/
def issueBitcoindCommand (render : Text → Text) (extract : Option Text) (field : Option Text) (retstr : Option Text) :
    Int × Option Text :=
  match retstr with
  | some (c :: cs) =>
    let json := cJSONParse render (c :: cs)
    match field with
    | some field =>
      match json, extract with
      | none, _ => (0, extract)
      | some json, none => (getCJSONInt json field, none)
      | some json, some _ =>
        let extract := copyCJSON (getObjectItem json field)
        (extract.length, some extract)
    | none => (0, extract.map fun _ => copyCJSON json)
  | _ => (0, extract)

/-- `rpc` is `bitcoind_RPC` with the coin's port and password, and `stack` what stands in `output`. -/
def validateCoinaddr (render : Text → Text) (rpc : Text → Text → Option Text) (stack coinaddr : Text) : Int :=
  let quotes := if coinaddr.head? ≠ some '"' then quoted coinaddr else safecopy coinaddr 128
  let (len, output) := issueBitcoindCommand render (some stack) (some "isvalid".toList)
      (rpc "validateaddress".toList quotes)
  if len ≠ 0 ∧ output = some "true".toList then 0 else -1

def getBlockheight (render : Text → Text) (rpc : Text → Text → Option Text) : Int :=
  (issueBitcoindCommand render none (some "blocks".toList) (rpc "getinfo".toList [])).1

/-! ## The daemon -/

/-- A request of JSON-RPC, in any layout. Its numbers are taken as they are written. -/
def IsRequest (request method : Text) (params : Json) : Prop :=
  ∃ ident child, Denotes id request (object child) ∧
    child.Perm [("id".toList, ident), ("method".toList, string method), ("params".toList, params)]

/-- A response of JSON-RPC with this result and this error, in any layout and whatever else it holds. -/
def IsResponse (render : Text → Text) (response : Text) (answer : Json × Json) : Prop :=
  ∃ child, Denotes render response (object child) ∧ (child.map fun m => m.1.map tolower).Nodup ∧
    ("result".toList, answer.1) ∈ child ∧ ("error".toList, answer.2) ∈ child

/-- A coin daemon as it stands: the text that it sends for a request, and the result and the error that it has for
a method and its parameters. -/
structure Bitcoind where
  reply : Text → Text
  answer : Text → Json → Json × Json

/-- It keeps to JSON-RPC, and the numbers of its results print as texts that read back to themselves. -/
structure Bitcoind.Conforms (d : Bitcoind) (render : Text → Text) : Prop where
  responds : ∀ request method params, IsRequest request method params →
    IsResponse render (d.reply request) (d.answer method params)
  readable : ∀ method params, Readable render (d.answer method params).1

/-- What a caller gets of a result. The characters of a string keep their escapes. -/
def resultText (result : Json) : Text :=
  match result with
  | string str => str.flatMap escapeChar
  | result => cJSONPrint result

/-- What a caller gets of an answer. -/
def resultOf (answer : Json × Json) : Option Text :=
  if isNull answer.2 ∧ ¬isNull answer.1 then some (resultText answer.1) else none

section
variable {render : Text → Text}

/-! ## The request -/

/-- The only member of its name. -/
theorem getObjectItem_of_mem {child : List (Text × Json)} {name : Text} {item : Json}
    (hdistinct : (child.map fun m => m.1.map tolower).Nodup) (hmem : (name, item) ∈ child) :
    getObjectItem (object child) name = some item := by
  show (child.find? fun m => m.1.map tolower == name.map tolower).map Prod.snd = some item
  induction child with
  | nil => exact absurd hmem List.not_mem_nil
  | cons m child ih =>
    rw [List.map_cons, List.nodup_cons] at hdistinct
    rcases List.mem_cons.mp hmem with rfl | hchild
    · rw [List.find?_cons_of_pos (by simp)]
      rfl
    · have hne : m.1.map tolower ≠ name.map tolower := by
        intro heq
        apply hdistinct.1
        rw [heq]
        exact List.mem_map_of_mem (f := fun m : Text × Json => m.1.map tolower) hchild
      rw [List.find?_cons_of_neg (by simpa using hne)]
      exact ih hdistinct.2 hchild

def rpcFields (command params : Text) (values : Json) : List (String × Text × Json) :=
  [ ("id", quoted "jl777".toList, string "jl777".toList),
    ("method", quoted command, string command),
    ("params", bracket params, values) ]

theorem rpcRequest_eq (command params : Text) (values : Json) :
    rpcRequest command params = fieldsText (rpcFields command params values) := by
  have hid : "\x7b\"id\":\"jl777\",\"method\":\"".toList = '\x7b' :: '"' :: ("id".toList ++ '"' :: ':' :: '"' ::
      ("jl777".toList ++ '"' :: ',' :: '"' :: ("method".toList ++ ['"', ':', '"']))) := rfl
  have hparams : "\",\"params\":".toList = '"' :: ',' :: '"' :: ("params".toList ++ ['"', ':']) := rfl
  unfold rpcRequest fieldsText rpcFields
  simp only [hid, hparams, List.map_cons, List.map_nil, elements, memberText, quoted, List.append_assoc,
    List.cons_append, List.nil_append]

/-- **The text that is posted is a request** for the command with the parameters. -/
theorem isRequest_rpcRequest {command params : Text} {values : Json} (hcommand : Unescaped command)
    (hparams : Value id (bracket params) values []) : IsRequest (rpcRequest command params) command values := by
  have hspells : Spells id (fieldsText (rpcFields command params values))
      (fieldsNode (rpcFields command params values)) := by
    apply spells_fields (List.cons_ne_nil _ _)
    · show ∀ name ∈ ["id", "method", "params"], Unescaped name.toList
      decide
    · show ∀ item ∈ [(quoted "jl777".toList, string "jl777".toList), (quoted command, string command),
        (bracket params, values)], Spells id item.1 item.2
      simp only [List.forall_mem_cons]
      exact ⟨spells_string (by decide), spells_string hcommand, spells_iff.mpr hparams, List.forall_mem_nil _⟩
  have hdenotes := hspells.denotes (.nil []) numberEnds_nil
  rw [List.append_nil, ← rpcRequest_eq] at hdenotes
  exact ⟨string "jl777".toList, _, hdenotes, .refl _⟩

/-! ## The attempts -/

/-- One attempt that goes well is enough. -/
theorem perform_eq (transfer : Nat → Transfer) {numretries k : Nat} (hk : k ≤ numretries) (start : Nat)
    (hlost : ∀ j < k, (transfer (start + j)).ok = false) (hok : (transfer (start + k)).ok = true) :
    perform transfer numretries start = (transfer (start + k)).memory := by
  induction numretries generalizing start k with
  | zero =>
    obtain rfl := Nat.le_zero.mp hk
    rfl
  | succ numretries ih =>
    rw [perform]
    cases k with
    | zero =>
      rw [Nat.add_zero] at hok ⊢
      exact if_pos hok
    | succ k =>
      have hfirst : (transfer start).ok = false := hlost 0 (Nat.succ_pos k)
      have hshift (j : Nat) : start + 1 + j = start + (j + 1) := by omega
      rw [hfirst, if_neg Bool.false_ne_true, ih (Nat.le_of_succ_le_succ hk) (start + 1), hshift]
      · intro j hj
        rw [hshift]
        exact hlost (j + 1) (Nat.succ_lt_succ hj)
      · rw [hshift]
        exact hok

/-! ## The answer -/

theorem dequote_cJSONPrint {result : Json} (h : Readable render result) :
    dequote (cJSONPrint result) = resultText result := by
  cases result with
  | string str =>
    show dequote ('"' :: (str.flatMap escapeChar ++ ['"'])) = str.flatMap escapeChar
    have hlast : ('"' :: (str.flatMap escapeChar ++ ['"'])).getLast? = some '"' := by
      rw [← List.cons_append, List.getLast?_concat]
    rw [dequote, if_pos hlast, List.dropLast_concat]
  | number printed =>
    obtain ⟨c, cs, rfl, hc⟩ := Settled.head h
    have hquote : c ≠ '"' := by
      rcases hc with rfl | hdigit
      · decide
      · exact digit_induction (p := fun c => c ≠ '"') (by decide) hdigit
    show dequote (c :: cs) = c :: cs
    unfold dequote
    split
    · next h => exact absurd (List.cons.inj h).1 hquote
    · rfl
  | object child =>
    cases child with
    | nil => rfl
    | cons m child => rfl
  | _ => rfl

theorem cJSONPrint_object_ne_nil (child : List (Text × Json)) : cJSONPrint (object child) ≠ [] := by
  cases child with
  | nil => exact List.cons_ne_nil _ _
  | cons m child => exact List.cons_ne_nil _ _

/-- **What is made of a response**, however it is laid out. -/
theorem postProcess_response {response : Text} {answer : Json × Json} (h : IsResponse render response answer)
    (hresult : Readable render answer.1) : postProcess render response = resultOf answer := by
  obtain ⟨child, hdenotes, hdistinct, hmem, herror⟩ := h
  have hne : response ≠ [] := by
    rintro rfl
    obtain ⟨value, behind, hgap, hvalue, -⟩ := hdenotes
    obtain ⟨c, cs, rfl, -⟩ := hvalue.head
    exact absurd hgap.length_le (Nat.not_succ_le_zero _)
  rw [postProcess, if_neg hne, cJSONParse_denotes hdenotes]
  simp only [getObjectItem_of_mem hdistinct hmem, getObjectItem_of_mem hdistinct herror, dequote_cJSONPrint hresult]
  rfl

/-- **A call gives the daemon's result**, when one of the attempts goes well: a string without its quotes, any other
node as it is printed, and a null pointer for an error. -/
theorem bitcoindRPC_eq {d : Bitcoind} (hconforms : d.Conforms render) {command params : Text} {values : Json}
    (hcommand : Unescaped command) (hparams : Value id (bracket params) values []) {numretries k : Nat}
    (hk : k ≤ numretries) (transfer : Nat → Transfer) (hlost : ∀ j < k, (transfer j).ok = false)
    (hok : transfer k = { ok := true, memory := d.reply (rpcRequest command params) }) :
    bitcoindRPC render numretries transfer = resultOf (d.answer command values) := by
  have hperform : perform transfer numretries 0 = (transfer (0 + k)).memory := by
    apply perform_eq transfer hk 0
    · intro j hj
      rw [Nat.zero_add]
      exact hlost j hj
    · rw [Nat.zero_add, hok]
  have hresponds := hconforms.responds _ _ _ (isRequest_rpcRequest hcommand hparams)
  rw [bitcoindRPC, hperform, Nat.zero_add, hok]
  exact postProcess_response hresponds (hconforms.readable command values)

/-! ## What a caller relies on -/

/-- `rpc` gives the results of the daemon, for parameters that are JSON once they stand in brackets. -/
def Serves (d : Bitcoind) (rpc : Text → Text → Option Text) : Prop :=
  ∀ command params values, Unescaped command → Value id (bracket params) values [] →
    rpc command params = resultOf (d.answer command values)

/-- The requests reach the daemon at one of the attempts, and the attempts before it fail. -/
def Reaches (d : Bitcoind) (numretries : Nat) (transfer : Text → Nat → Transfer) : Prop :=
  ∀ request, ∃ k ≤ numretries, (∀ j < k, (transfer request j).ok = false) ∧
    transfer request k = { ok := true, memory := d.reply request }

/-- **A daemon that is reached serves its callers**, whatever the failed attempts leave behind. -/
theorem serves_bitcoindRPC {d : Bitcoind} (hconforms : d.Conforms render) {numretries : Nat}
    {transfer : Text → Nat → Transfer} (hreaches : Reaches d numretries transfer) :
    Serves d fun command params => bitcoindRPC render numretries (transfer (rpcRequest command params)) := by
  intro command params values hcommand hparams
  obtain ⟨k, hk, hlost, hok⟩ := hreaches (rpcRequest command params)
  exact bitcoindRPC_eq hconforms hcommand hparams hk _ hlost hok

/-! ### A daemon at block 7 -/

def methodOf (request : Text) : Option Text :=
  match (cJSONParse id request).bind fun json => getObjectItem json "method".toList with
  | some (string method) => some method
  | _ => none

theorem methodOf_request {request method : Text} {params : Json} (h : IsRequest request method params) :
    methodOf request = some method := by
  obtain ⟨ident, child, hdenotes, hperm⟩ := h
  have hdistinct : (child.map fun m => m.1.map tolower).Nodup := by
    rw [(hperm.map _).nodup_iff]
    show (["id".toList, "method".toList, "params".toList].map fun name => name.map tolower).Nodup
    decide
  have hmem : ("method".toList, string method) ∈ child := hperm.mem_iff.mpr (.tail _ (.head _))
  rw [methodOf, cJSONParse_denotes hdenotes, Option.bind_some, getObjectItem_of_mem hdistinct hmem]

def smallDaemon : Bitcoind where
  reply request :=
    if methodOf request = some "getinfo".toList then
      "\x7b\"result\":\x7b\"blocks\":7,\"balance\":5.00000000\x7d,\"error\":null,\"id\":\"jl777\"\x7d\n".toList
    else
      ("\x7b\"result\":null,\"error\":\x7b\"code\":-32601,\"message\":\"Method not found\"\x7d," ++
        "\"id\":\"jl777\"\x7d\n").toList
  answer method _ :=
    if method = "getinfo".toList then
      (object [("blocks".toList, number ['7']), ("balance".toList, number ['5'])], .null)
    else
      (.null, object [("code".toList, number "-32601".toList), ("message".toList, string "Method not found".toList)])

/-- The texts that the numbers of its answers print. -/
def smallRender (printed : Text) : Text := if printed = "5.00000000".toList then ['5'] else printed

def infoFields : List (String × Text × Json) :=
  [("blocks", ['7'], number ['7']), ("balance", "5.00000000".toList, number ['5'])]

def notFoundFields : List (String × Text × Json) :=
  [("code", "-32601".toList, number "-32601".toList),
    ("message", quoted "Method not found".toList, string "Method not found".toList)]

theorem spells_infoFields : Spells smallRender (fieldsText infoFields) (fieldsNode infoFields) := by
  have hseven : IntegerText ['7'] := .digits (by decide) (List.all_eq_true.mp (by decide))
  have hfive : IntegerText ['5'] := .digits (by decide) (List.all_eq_true.mp (by decide))
  have hzeros : FractionText ".00000000".toList := .digits (c := '0') (List.all_eq_true.mp (by decide))
  have hblocks : Spells smallRender ['7'] (number ['7']) := spells_number (.parts (.inl rfl) hseven .nil .nil)
  have hbalance : Spells smallRender "5.00000000".toList (number ['5']) :=
    spells_number (.parts (.inl rfl) hfive hzeros .nil)
  apply spells_fields (List.cons_ne_nil _ _)
  · show ∀ name ∈ ["blocks", "balance"], Unescaped name.toList
    decide
  · show ∀ item ∈ [(['7'], number ['7']), ("5.00000000".toList, number ['5'])], Spells smallRender item.1 item.2
    simp only [List.forall_mem_cons]
    exact ⟨hblocks, hbalance, List.forall_mem_nil _⟩

theorem spells_notFoundFields : Spells smallRender (fieldsText notFoundFields) (fieldsNode notFoundFields) := by
  have hdigits : IntegerText "32601".toList := .digits (by decide) (List.all_eq_true.mp (by decide))
  have hcode : Spells smallRender "-32601".toList (number "-32601".toList) :=
    spells_number (.parts (.inr rfl) hdigits .nil .nil)
  apply spells_fields (List.cons_ne_nil _ _)
  · show ∀ name ∈ ["code", "message"], Unescaped name.toList
    decide
  · show ∀ item ∈ [("-32601".toList, number "-32601".toList),
      (quoted "Method not found".toList, string "Method not found".toList)], Spells smallRender item.1 item.2
    simp only [List.forall_mem_cons]
    exact ⟨hcode, spells_string (by decide), List.forall_mem_nil _⟩

theorem isResponse_fields {text text' : Text} {result error : Json} (hresult : Spells smallRender text result)
    (herror : Spells smallRender text' error) :
    IsResponse smallRender (fieldsText [("result", text, result), ("error", text', error),
      ("id", quoted "jl777".toList, string "jl777".toList)] ++ ['\n']) (result, error) := by
  let fields := [("result", text, result), ("error", text', error),
    ("id", quoted "jl777".toList, string "jl777".toList)]
  have hspells : Spells smallRender (fieldsText fields) (object [("result".toList, result), ("error".toList, error),
      ("id".toList, string "jl777".toList)]) := by
    apply spells_fields (List.cons_ne_nil _ _)
    · show ∀ name ∈ ["result", "error", "id"], Unescaped name.toList
      decide
    · show ∀ item ∈ [(text, result), (text', error), (quoted "jl777".toList, string "jl777".toList)],
        Spells smallRender item.1 item.2
      simp only [List.forall_mem_cons]
      exact ⟨hresult, herror, spells_string (by decide), List.forall_mem_nil _⟩
  refine ⟨_, hspells.denotes (.cons (by simp) (.nil [])) (numberEnds_cons (by decide) []), ?_, .head _,
    .tail _ (.head _)⟩
  simp only [List.map_cons, List.map_nil]
  decide

theorem conforms_smallDaemon : smallDaemon.Conforms smallRender where
  responds request method params h := by
    have hmethod : methodOf request = some "getinfo".toList ↔ method = "getinfo".toList := by
      rw [methodOf_request h, Option.some.injEq]
    unfold smallDaemon
    dsimp only
    by_cases hinfo : method = "getinfo".toList
    · rw [if_pos (hmethod.mpr hinfo), if_pos hinfo]
      exact isResponse_fields spells_infoFields spells_null
    · rw [if_neg (mt hmethod.mp hinfo), if_neg hinfo]
      exact isResponse_fields spells_null spells_notFoundFields
  readable method _ := by
    unfold smallDaemon
    dsimp only
    split
    · exact ⟨by decide, settled_decimal (n := 7) rfl, by decide, settled_decimal (n := 5) rfl, trivial⟩
    · trivial

/-- Its first attempts come back cut off. -/
def cutTransfer (request : Text) (k : Nat) : Transfer :=
  if k < 2 then { ok := false, memory := "\x7b\"res".toList }
  else { ok := true, memory := smallDaemon.reply request }

theorem serves_bitcoindRPC_cut : Serves smallDaemon fun command params =>
    bitcoindRPC smallRender 3 (cutTransfer (rpcRequest command params)) := by
  apply serves_bitcoindRPC conforms_smallDaemon
  intro request
  refine ⟨2, by decide, fun j hj => ?_, rfl⟩
  unfold cutTransfer
  rw [if_pos hj]

/-! ## What the commands get -/

theorem spells_quoted {str : Text} (h : Unescaped str) : Spells render (bracket (quoted str)) (array [string str]) := by
  let children := [(quoted str, string str)]
  have hchildren : children ≠ [] := List.cons_ne_nil _ _
  exact spells_array hchildren (List.forall_mem_singleton.mpr (spells_string h))

theorem Bitcoind.Conforms.readable_of_answer {d : Bitcoind} (h : d.Conforms render) {method : Text}
    {params result error : Json} (hanswer : d.answer method params = (result, error)) : Readable render result := by
  have hread := h.readable method params
  rwa [hanswer] at hread

theorem resultOf_object (child : List (Text × Json)) (error : Json) :
    resultOf (object child, error) = if isNull error then some (resultText (object child)) else none := by
  unfold resultOf
  exact if_congr (and_iff_left Bool.false_ne_true) rfl rfl

/-- The field of a result. -/
theorem issueBitcoindCommand_object (extract : Option Text) (field : Text) {child : List (Text × Json)}
    (h : Readable render (object child)) :
    issueBitcoindCommand render extract (some field) (some (resultText (object child))) =
      match extract with
      | none => (getCJSONInt (object child) field, none)
      | some _ => ((copyCJSON (getObjectItem (object child) field)).length,
          some (copyCJSON (getObjectItem (object child) field))) := by
  obtain ⟨c, cs, hprint⟩ := List.exists_cons_of_ne_nil (cJSONPrint_object_ne_nil child)
  have hread : cJSONParse render (c :: cs) = some (object child) := by
    rw [← hprint]
    exact cJSONParse_cJSONPrint _ h
  have htext : resultText (object child) = c :: cs := hprint
  rw [htext]
  unfold issueBitcoindCommand
  dsimp only
  rw [hread]
  cases extract <;> rfl

section
variable {d : Bitcoind} {rpc : Text → Text → Option Text} (hserves : Serves d rpc) (hconforms : d.Conforms render)
include hserves hconforms

/-- **The height is that of the daemon**, `0` when it answers with an error. -/
theorem getBlockheight_eq {child : List (Text × Json)} {error : Json}
    (hanswer : d.answer "getinfo".toList (array []) = (object child, error)) :
    getBlockheight render rpc = if isNull error then getCJSONInt (object child) "blocks".toList else 0 := by
  have hresult := hconforms.readable_of_answer hanswer
  rw [getBlockheight, hserves _ _ _ (by decide) (spells_iff.mp spells_nil), hanswer, resultOf_object]
  split
  · rw [issueBitcoindCommand_object none _ hresult]
  · rfl

/-- **An address is valid when the daemon says so**, whatever stood in the buffer. -/
theorem validateCoinaddr_eq {coinaddr : Text} (hcoinaddr : Unescaped coinaddr) {child : List (Text × Json)}
    {error : Json} (hanswer : d.answer "validateaddress".toList (array [string coinaddr]) = (object child, error))
    (stack : Text) :
    validateCoinaddr render rpc stack coinaddr =
      if isNull error ∧ copyCJSON (getObjectItem (object child) "isvalid".toList) = "true".toList then 0 else -1 := by
  have hresult := hconforms.readable_of_answer hanswer
  have hquotes : coinaddr.head? ≠ some '"' := by
    intro hhead
    exact (hcoinaddr '"' (List.mem_of_mem_head? hhead)).2.1 rfl
  unfold validateCoinaddr
  dsimp only
  rw [if_pos hquotes, hserves _ _ _ (by decide) (spells_iff.mp (spells_quoted hcoinaddr)), hanswer, resultOf_object]
  by_cases herror : isNull error
  · rw [if_pos herror, issueBitcoindCommand_object (some stack) _ hresult]
    dsimp only
    apply if_congr _ rfl rfl
    rw [Option.some.injEq, and_iff_right herror, and_iff_right_iff_imp]
    intro htrue
    rw [htrue]
    decide
  · rw [if_neg herror]
    exact (if_neg fun h => h.1 rfl).trans (if_neg fun h => herror h.1).symm

end

end

end NXTServices.Gateway
