import NXTServices.Protocol

/-!
# From a transaction to its event: `process_NXTtransaction` of `NXTprotocol.c`

* `messageBuf` : the buffer that holds the hash text first and then the decoded message;
* `transactionEvent` : the event of a transaction that is new;
* `processTransaction` : the whole function, the ledger and the handlers;
* `amHdr_eq_iff` : a header is its 16 bytes;
* `sameView_iff` : when two transactions with one message are presented alike.

`stack` is what the buffer holds when the function is called. The texts are shorter than their buffers.
-/

namespace NXTServices.Protocol
open Ledger Hashtable

/-! ## The buffer -/

/-- The bytes and a null after them are written to the start of the buffer. -/
def writeBytes (buf : Buf) (bytes : List (BitVec 8)) : Buf := fun i =>
  if i < bytes.length then bytes.getD i 0 else if i = bytes.length then 0 else buf i

def unhex (c : Char) : Nat :=
  if '0' ≤ c ∧ c ≤ '9' then c.toNat - '0'.toNat
  else if 'a' ≤ c ∧ c ≤ 'f' then c.toNat - 'a'.toNat + 10
  else 0

/-- The bytes that `n` pairs of characters spell. -/
def decodeHex (n : Nat) (hex : Text) : List (BitVec 8) := (List.range n).map fun i =>
  BitVec.ofNat 8 (unhex (hex.getD (2 * i) '0') <<< 4 ||| unhex (hex.getD (2 * i + 1) '0'))

def textBytes (text : Text) : List (BitVec 8) := text.map fun c => BitVec.ofNat 8 c.toNat

/-- The buffer once the hash text has been copied to it. -/
def hashBuf (stack : Buf) (hash : Option Text) : Buf :=
  match hash with
  | none => stack
  | some hash => writeBytes stack (textBytes hash)

def messageBuf (stack : Buf) (hash : Option Text) (message : Text) : Buf :=
  writeBytes (hashBuf stack hash) (decodeHex (message.length / 2) message)

/-! ## The event -/

/-- Is the hash of the transaction in the table? -/
def duplicate (mp : NXThandlerInfo) (tx : NXTtransaction) : Bool :=
  match tx.hash with
  | none => false
  | some hash => (mp.guids (storeKey 88 hash)).isSome

/-- The quantity and the comment that an asset transaction hands on. -/
def assetEvent (mp : NXThandlerInfo) (txid : Text) (tx : NXTtransaction) (a : AssetAttachment) : Int × Option Text :=
  if (addNXTAssettxid mp a.assetid txid).1.isSome ∧ tx.type = 2 then
    (a.quantityQNT, if a.comment = [] then none else some a.comment)
  else (0, none)

/-- The event of a transaction without an attachment. -/
def bareEvent (histmode : Int) (txid : Text) (json : Json) : NXTEvent where
  histmode := histmode
  txid := txid
  type := (readTransaction json).type
  subtype := (readTransaction json).subtype
  am := none
  sender := (readTransaction json).sender
  receiver := (readTransaction json).receiver
  assetid := none
  assetoshis := 0
  comment := none
  json := json

/-- The event of an arbitrary message that is in `buf`. -/
def messageEvent (buf : Buf) (histmode : Int) (txid : Text) (json : Json) : NXTEvent :=
  { bareEvent histmode txid json with am := some buf }

def transactionEvent (stack : Buf) (mp : NXThandlerInfo) (histmode : Int) (txid : Text) (json : Json) :
    Option NXTEvent :=
  let tx := readTransaction json
  let ev := bareEvent histmode txid json
  if duplicate mp tx then none
  else
    match tx.message, tx.asset with
    | some message, _ => some (messageEvent (messageBuf stack tx.hash message) histmode txid json)
    | none, some a =>
      let (assetoshis, comment) := assetEvent mp txid tx a
      some { ev with assetid := some a.assetid, assetoshis := assetoshis, comment := comment }
    | none, none => some ev

/-- The call, with what the handlers are called with. -/
def processTransaction {H : Type*} (handlers : List (NXTProtocol H)) (stack : Buf) (mp : NXThandlerInfo)
    (histmode : Int) (txid : Text) (response : Option Json) :
    NXThandlerInfo × Bool × List (H × NXTProtocolParms) :=
  (processNXTtransaction mp txid response,
    match response.bind (transactionEvent stack mp histmode txid) with
    | none => (false, [])
    | some ev => processNXTEvent handlers ev)

/-! ## Headers and bytes -/

theorem bytesAt_eq_iff {buf buf' : Buf} {i n : Nat} :
    bytesAt buf i n = bytesAt buf' i n ↔ ∀ k < n, buf (i + k) = buf' (i + k) := by
  unfold bytesAt
  rw [List.map_inj_left]
  constructor
  · intro h k hk
    exact BitVec.eq_of_toNat_eq (h k (List.mem_range.mpr hk))
  · intro h k hk
    rw [h k (List.mem_range.mp hk)]

theorem ofNat_ofDigits_bytesAt_inj {buf buf' : Buf} {w i n : Nat} (hw : 256 ^ n = 2 ^ w)
    (h : BitVec.ofNat w (Nat.ofDigits 256 (bytesAt buf i n)) = BitVec.ofNat w (Nat.ofDigits 256 (bytesAt buf' i n))) :
    bytesAt buf i n = bytesAt buf' i n := by
  have hbyte (buf : Buf) : ∀ x ∈ bytesAt buf i n, x < 256 := by
    intro x hx
    obtain ⟨k, -, rfl⟩ := List.mem_map.mp hx
    exact (buf (i + k)).isLt
  have hlen (buf : Buf) : (bytesAt buf i n).length = n := by simp [bytesAt]
  have hlt (buf : Buf) : Nat.ofDigits 256 (bytesAt buf i n) < 2 ^ w := by
    have := Nat.ofDigits_lt_base_pow_length (by decide) (hbyte buf)
    rwa [hlen, hw] at this
  apply Nat.ofDigits_inj_of_len_eq (by decide) ((hlen buf).trans (hlen buf').symm) (hbyte buf) (hbyte buf')
  have := congrArg BitVec.toNat h
  rwa [BitVec.toNat_ofNat, BitVec.toNat_ofNat, Nat.mod_eq_of_lt (hlt buf), Nat.mod_eq_of_lt (hlt buf')] at this

/-- **A header is its bytes.** -/
theorem amHdr_eq_iff {buf buf' : Buf} : amHdr buf = amHdr buf' ↔ ∀ i < 16, buf i = buf' i := by
  constructor
  · intro h
    have hsig := ofNat_ofDigits_bytesAt_inj (by decide) (congrArg NXTAMhdr.sig h)
    have hsize := ofNat_ofDigits_bytesAt_inj (by decide) (congrArg NXTAMhdr.size h)
    have hbits := ofNat_ofDigits_bytesAt_inj (by decide) (congrArg NXTAMhdr.nxt64bits h)
    intro i hi
    by_cases h4 : i < 4
    · have := bytesAt_eq_iff.mp hsig i h4
      rwa [Nat.zero_add] at this
    · by_cases h8 : i < 8
      · have := bytesAt_eq_iff.mp hsize (i - 4) (by omega)
        rwa [show 4 + (i - 4) = i by omega] at this
      · have := bytesAt_eq_iff.mp hbits (i - 8) (by omega)
        rwa [show 8 + (i - 8) = i by omega] at this
  · intro h
    unfold amHdr
    rw [bytesAt_eq_iff.mpr fun k hk => h (0 + k) (by omega), bytesAt_eq_iff.mpr fun k hk => h (4 + k) (by omega),
      bytesAt_eq_iff.mpr fun k hk => h (8 + k) (by omega)]

/-! ## Two transactions with one message -/

/-- The transactions agree in all that a message is to be read with. -/
structure Alike (tx tx' : NXTtransaction) (message : Text) : Prop where
  type : tx.type = tx'.type
  subtype : tx.subtype = tx'.subtype
  sender : tx.sender = tx'.sender
  receiver : tx.receiver = tx'.receiver
  left : tx.message = some message
  right : tx'.message = some message

/-- The header that `process_NXT_event` gets. -/
def presented (stack : Buf) (mp : NXThandlerInfo) (histmode : Int) (txid : Text) (json : Json) : Option NXTAMhdr :=
  ((transactionEvent stack mp histmode txid json).bind NXTEvent.am).map amHdr

/-- The handlers that are called. -/
def invoked {H : Type*} (handlers : List (NXTProtocol H)) (stack : Buf) (mp : NXThandlerInfo) (histmode : Int)
    (txid : Text) (json : Json) : List H :=
  (processTransaction handlers stack mp histmode txid (some json)).2.2.map Prod.fst

section
variable {H : Type*} {stack stack' : Buf} {mp mp' : NXThandlerInfo} {histmode histmode' : Int} {txid txid' : Text}
  {json json' : Json} {hash hash' message : Text}

theorem transactionEvent_of_message (stack : Buf) (histmode : Int) (txid : Text)
    (hmessage : (readTransaction json).message = some message)
    (hhash : (readTransaction json).hash = some hash) (hnew : mp.guids (storeKey 88 hash) = none) :
    transactionEvent stack mp histmode txid json =
      some (messageEvent (messageBuf stack (some hash) message) histmode txid json) := by
  simp [transactionEvent, duplicate, hmessage, hhash, hnew]

theorem claims_messageEvent_congr {buf buf' : Buf} (histmode histmode' : Int) (txid txid' : Text)
    (halike : Alike (readTransaction json) (readTransaction json') message)
    (hhdr : amHdr buf = amHdr buf') :
    claims (H := H) (messageEvent buf histmode txid json) = claims (messageEvent buf' histmode' txid' json') := by
  funext p
  apply decide_eq_decide.mpr
  rw [hhdr, show (messageEvent buf histmode txid json).sender = (messageEvent buf' histmode' txid' json').sender from
      halike.sender, show (messageEvent buf histmode txid json).receiver =
        (messageEvent buf' histmode' txid' json').receiver from halike.receiver]

/-- The buffers agree where the message has not been written. -/
theorem messageBuf_agree_iff :
    (∀ i < 16, messageBuf stack (some hash) message i = messageBuf stack' (some hash') message i) ↔
      ∀ i, message.length / 2 < i → i < 16 →
        writeBytes stack (textBytes hash) i = writeBytes stack' (textBytes hash') i := by
  have hlen : (decodeHex (message.length / 2) message).length = message.length / 2 := by simp [decodeHex]
  have hbeyond (stack : Buf) (hash : Text) (i : Nat) (hi : message.length / 2 < i) :
      messageBuf stack (some hash) message i = writeBytes stack (textBytes hash) i := by
    show writeBytes (hashBuf stack (some hash)) _ i = _
    rw [writeBytes, hlen, if_neg (by omega), if_neg (by omega)]
    rfl
  constructor
  · intro h i hlt hi
    rw [← hbeyond stack hash i hlt, ← hbeyond stack' hash' i hlt]
    exact h i hi
  · intro h i hi
    by_cases hlt : message.length / 2 < i
    · rw [hbeyond stack hash i hlt, hbeyond stack' hash' i hlt]
      exact h i hlt hi
    · simp only [messageBuf, writeBytes, hlen]
      by_cases heq : i = message.length / 2
      · simp [heq]
      · rw [if_pos (by omega), if_pos (by omega)]

/-- **A message is interpreted from its own bytes** exactly when what is left in the buffer behind it, up
to the end of the header, is the same. -/
theorem sameView_iff (handlers : List (NXTProtocol H))
    (halike : Alike (readTransaction json) (readTransaction json') message)
    (hhash : (readTransaction json).hash = some hash) (hhash' : (readTransaction json').hash = some hash')
    (hnew : mp.guids (storeKey 88 hash) = none) (hnew' : mp'.guids (storeKey 88 hash') = none) :
    (presented stack mp histmode txid json = presented stack' mp' histmode' txid' json' ∧
        invoked handlers stack mp histmode txid json = invoked handlers stack' mp' histmode' txid' json') ↔
      ∀ i, message.length / 2 < i → i < 16 →
        writeBytes stack (textBytes hash) i = writeBytes stack' (textBytes hash') i := by
  have hev := transactionEvent_of_message stack histmode txid halike.left hhash hnew
  have hev' := transactionEvent_of_message stack' histmode' txid' halike.right hhash' hnew'
  rw [← messageBuf_agree_iff, ← amHdr_eq_iff]
  unfold presented
  simp only [hev, hev', Option.bind_some, messageEvent, Option.map_some, Option.some.injEq, and_iff_left_iff_imp]
  intro hhdr
  unfold invoked processTransaction
  simp only [Option.bind_some, hev, hev', calls_eq_records, List.map_map,
    claims_messageEvent_congr histmode histmode' txid txid' halike hhdr]
  rfl

end

/-- A transaction with this hash and message. -/
def messageJson (hash message : String) : Json :=
  .object [("hash".toList, .string hash.toList), ("type".toList, .number "1".toList),
    ("sender".toList, .string "11".toList), ("recipient".toList, .string "12".toList),
    ("attachment".toList, .object [("message".toList, .string message.toList)])]

theorem sameView_iff_messageJson :
    (presented (fun _ => 0) {} 0 "8".toList (messageJson "a0a0" "0102") =
        presented (fun _ => 1) {} 0 "9".toList (messageJson "b1b1" "0102") ∧
      invoked (wildcards [1]) (fun _ => 0) {} 0 "8".toList (messageJson "a0a0" "0102") =
        invoked (wildcards [1]) (fun _ => 1) {} 0 "9".toList (messageJson "b1b1" "0102")) ↔
      ∀ i, "0102".toList.length / 2 < i → i < 16 →
        writeBytes (fun _ => 0) (textBytes "a0a0".toList) i = writeBytes (fun _ => 1) (textBytes "b1b1".toList) i :=
  sameView_iff (wildcards [1]) ⟨by decide +kernel, by decide +kernel, by decide +kernel, by decide +kernel,
    by decide +kernel, by decide +kernel⟩ (by decide +kernel) (by decide +kernel) rfl rfl

/-- The header of a short message ends in the hash. -/
theorem not_forall_sameView :
    ¬ ∀ (handlers : List (NXTProtocol Int)) (stack stack' : Buf) (mp mp' : NXThandlerInfo) (histmode : Int)
      (txid txid' : Text) (json json' : Json) (hash hash' message : Text),
      Alike (readTransaction json) (readTransaction json') message →
      (readTransaction json).hash = some hash → (readTransaction json').hash = some hash' → hash ≠ hash' →
      mp.guids (storeKey 88 hash) = none → mp'.guids (storeKey 88 hash') = none →
      presented stack mp histmode txid json = presented stack' mp' histmode txid' json' ∧
        invoked handlers stack mp histmode txid json = invoked handlers stack' mp' histmode txid' json' := by
  intro h
  have hsame := (h [] (fun _ => 0) (fun _ => 0) {} {} 0 "8".toList "9".toList (messageJson "a0a0" "00")
    (messageJson "b1b1" "00") _ _ "00".toList ⟨by decide +kernel, by decide +kernel, by decide +kernel,
      by decide +kernel, by decide +kernel, by decide +kernel⟩ (show _ = some "a0a0".toList by decide +kernel)
    (show _ = some "b1b1".toList by decide +kernel) (by decide) rfl rfl).1
  exact absurd hsame (by decide +kernel)

end NXTServices.Protocol
