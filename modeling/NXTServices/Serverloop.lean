import NXTServices.Lib.Run
import NXTServices.Transaction
import Mathlib.Data.List.GetD

/-!
# The server for binary requests: `utils/NXTsock.h`

* `overlay`, `int32At`, `Agree` : the receive buffer, what is read from it and written to it;
* `Handler`, `Slot`, `HandlerInfo` : the table of handlers, each of which looks at `argsize` bytes only;
* `recvLoop`, `processClientPacket`, `serve` : one round of `_server_loop`, with the bytes that are sent back;
* `processDirectnetGetpubkey` : a handler, the one for addresses and public keys;
* `Noninterfering`, `Covered` : no earlier request shows in the reply, and what the request must give for that;
* `noninterfering_iff` : these are the same.
-/

namespace NXTServices.Server
open Protocol
open Json (cJSONParse copyCJSON getObjectItem)

/-! ## The buffer -/

/-- `bytes` are written from `i` on. -/
def overlay (buf : Buf) (i : Nat) (bytes : List (BitVec 8)) : Buf := fun k =>
  if i ≤ k then bytes.getD (k - i) (buf k) else buf k

def int32At (buf : Buf) (i : Nat) : Int := (buf (i + 3) ++ buf (i + 2) ++ buf (i + 1) ++ buf i).toInt

def int32Bytes (n : Int) : List (BitVec 8) :=
  (List.range 4).map fun k => (BitVec.ofInt 32 n).extractLsb' (8 * k) 8

def setInt32 (buf : Buf) (i : Nat) (n : Int) : Buf := overlay buf i (int32Bytes n)

def front (buf : Buf) (n : Nat) : List (BitVec 8) := (List.range n).map buf

/-- The first `n` bytes are the same. -/
def Agree (n : Nat) (buf buf' : Buf) : Prop := ∀ k < n, buf k = buf' k

section
variable {buf buf' buf'' : Buf} {n m i k : Nat} {bytes : List (BitVec 8)}

theorem overlay_of_lt (h : k < i) : overlay buf i bytes k = buf k := if_neg (Nat.not_le_of_lt h)

theorem overlay_of_le (h : i + bytes.length ≤ k) : overlay buf i bytes k = buf k := by
  unfold overlay
  split
  · exact List.getD_eq_default _ _ (by omega)
  · rfl

theorem overlay_of_mem (h : i ≤ k) (hk : k < i + bytes.length) (d : BitVec 8) :
    overlay buf i bytes k = bytes.getD (k - i) d := by
  have hlt : k - i < bytes.length := by omega
  unfold overlay
  rw [if_pos h, List.getD_eq_getElem _ _ hlt, List.getD_eq_getElem _ _ hlt]

theorem setInt32_of_le (v : Int) (h : i + 4 ≤ k) : setInt32 buf i v k = buf k := overlay_of_le h

theorem Agree.symm (h : Agree n buf buf') : Agree n buf' buf := fun k hk => (h k hk).symm

theorem Agree.mono (h : Agree n buf buf') (hm : m ≤ n) : Agree m buf buf' :=
  fun k hk => h k (Nat.lt_of_lt_of_le hk hm)

theorem Agree.overlay (h : Agree n buf buf') (i : Nat) (bytes : List (BitVec 8)) :
    Agree n (overlay buf i bytes) (Server.overlay buf' i bytes) := by
  intro k hk
  unfold Server.overlay
  rw [h k hk]

theorem Agree.setInt32 (h : Agree n buf buf') (i : Nat) (v : Int) :
    Agree n (setInt32 buf i v) (Server.setInt32 buf' i v) := h.overlay i _

theorem Agree.int32At (h : Agree n buf buf') (hi : i + 4 ≤ n) : int32At buf i = Server.int32At buf' i := by
  unfold Server.int32At
  rw [h i (by omega), h (i + 1) (by omega), h (i + 2) (by omega), h (i + 3) (by omega)]

theorem Agree.front (h : Agree n buf buf') : front buf n = Server.front buf' n :=
  List.map_congr_left fun k hk => h k (List.mem_range.mp hk)

theorem agree_overlay (buf buf' : Buf) (bytes : List (BitVec 8)) :
    Agree bytes.length (overlay buf 0 bytes) (overlay buf' 0 bytes) := by
  intro k hk
  rw [overlay_of_mem (Nat.zero_le k) (by omega) 0, overlay_of_mem (Nat.zero_le k) (by omega) 0]

theorem front_inj (h : front buf n = front buf' n) : Agree n buf buf' := by
  intro k hk
  have hget := congrArg (fun bytes => bytes[k]?) h
  simpa [front, hk] using hget

theorem int32At_neg (h : (buf (i + 3)).msb = true) : int32At buf i < 0 := by
  have hmsb : (buf (i + 3) ++ buf (i + 2) ++ buf (i + 1) ++ buf i).msb = true := by
    simp only [BitVec.msb_append, h]
    rfl
  exact BitVec.toInt_neg_of_msb_true hmsb

end

/-! ## Handlers -/

/-- What a handler makes of the request, and what it returns; it gets the address of the client too. It is
undefined where the handler reads text that has no end. -/
abbrev Handler := Buf → Text → Option (Buf × Int)

/-- The handler returns at most `n` bytes, and they do not depend on what is behind them. -/
structure Local (n : Nat) (f : Handler) : Prop where
  le : ∀ {req clientip req' ret}, f req clientip = some (req', ret) → ret ≤ n
  rel : ∀ {req req'} clientip, Agree n req req' →
    Option.Rel (fun r r' => Agree n r.1 r'.1 ∧ r.2 = r'.2) (f req clientip) (f req' clientip)

/-- The part of `struct handler_info` besides the handler. `argsize` is the size of a structure that starts with the
header, and it is less than what the loop waits for; a whitelist has a first entry. -/
structure Slot where
  variant : Int
  funcid : Int
  argsize : Nat
  whitelist : Option (List Text)
  header_le : 16 ≤ argsize := by decide
  argsize_lt : argsize < 65534 := by decide
  whitelist_ne : whitelist ≠ some []

structure HandlerInfo extends Slot where
  variantHandler : Handler
  isLocal : Local argsize variantHandler

def Slot.is (variant funcid : Int) (s : Slot) : Bool := s.variant = variant ∧ s.funcid = funcid

def findHandler (table : List HandlerInfo) (variant funcid : Int) : Option HandlerInfo :=
  table.find? fun info => info.is variant funcid

/-- The list ends at an empty text. -/
def checkWhitelist (whitelist : Option (List Text)) (ipaddr : Text) : Int :=
  match whitelist with
  | none => 0
  | some list =>
    match (list.takeWhile (· ≠ [])).findIdx? (· == ipaddr) with
    | some i => i
    | none => -1

/-- The request afterwards, and the result. -/
def processClientPacket (table : List HandlerInfo) (variant : Int) (req : Buf) (clientip : Text) :
    Option (Buf × Int) :=
  match findHandler table variant (int32At req 12) with
  | some info =>
    if 0 ≤ checkWhitelist info.whitelist clientip then info.variantHandler req clientip
    else some (setInt32 req 0 0, 0)
  | none => some (setInt32 (setInt32 req 4 0) 0 0, 0)

/-! ## The loop -/

/-- What a client sends until it closes the connection, and its address. -/
structure Request where
  bytes : List (BitVec 8)
  clientip : Text
deriving DecidableEq

/-- The state while a request is received; `rest` is not received yet. -/
structure Received where
  req : Buf
  bytesReceived : Nat := 0
  rest : List (BitVec 8)

/-- `recv` until there are `expected` bytes or the client is done. -/
def recvLoop (expected : Int) (r : Received) : Received :=
  let chunk := r.rest.take (expected - r.bytesReceived).toNat
  { req := overlay r.req r.bytesReceived chunk
    bytesReceived := r.bytesReceived + chunk.length
    rest := r.rest.drop chunk.length }

def sizeofHeader : Int := 16

def expectedBytes (req : Buf) : Int :=
  let argsize := int32At req 4
  if argsize < 65534 ∧ sizeofHeader ≠ argsize then argsize else sizeofHeader

/-- The address without the prefix of an IPv4 address. -/
def stripPrefix (clientip : Text) : Text :=
  if clientip.take 7 = "::ffff:".toList then clientip.drop 7 else clientip

/-- One connection: the buffer afterwards, and what is sent. -/
def serve (table : List HandlerInfo) (variant : Int) (req : Buf) (q : Request) : Option (Buf × List (BitVec 8)) :=
  let r := recvLoop sizeofHeader { req := req, rest := q.bytes }
  let expected := expectedBytes r.req
  let r := recvLoop expected r
  if r.bytesReceived < expected then some (r.req, [])
  else
    (processClientPacket table variant r.req (stripPrefix q.clientip)).map fun p =>
      let req := setInt32 p.1 0 p.2
      (req, if 0 < p.2 then front req p.2.toNat else [])

def serverLoop (table : List HandlerInfo) (variant : Int) (req : Buf) (q : Request) : Option Buf :=
  (serve table variant req q).map Prod.fst

/-- The bytes that are sent. -/
def reply (table : List HandlerInfo) (variant : Int) (req : Buf) (q : Request) : Option (List (BitVec 8)) :=
  (serve table variant req q).map Prod.snd

/-! ## Noninterference -/

/-- Whatever handlers are in the slots, the reply does not depend on what the earlier requests contain. -/
def Noninterfering (slots : List Slot) (variant : Int) (q : Request) : Prop :=
  ∀ (table : List HandlerInfo) (start buf buf' : Buf) (history history' : List Request),
    table.map HandlerInfo.toSlot = slots →
    history.map Request.clientip = history'.map Request.clientip →
    Run.run (serverLoop table variant) start history = some buf →
    Run.run (serverLoop table variant) start history' = some buf' →
    reply table variant buf q = reply table variant buf' q

/-- The slot whose handler a request gets to, the client being whitelisted. -/
def calledSlot (slots : List Slot) (variant : Int) (req : Buf) (clientip : Text) : Option Slot :=
  (slots.find? (Slot.is variant (int32At req 12))).filter fun s => 0 ≤ checkWhitelist s.whitelist clientip

/-- The bytes of a request, in an empty buffer. -/
def Request.buf (q : Request) : Buf := overlay (fun _ => 0) 0 q.bytes

/-- The request gives all that is looked at: it has a header and is shorter than the header says, or the header says
at least what the handler takes. A part of a header is enough if it says that there is more to come, or if no handler
can be meant. -/
def Covered (slots : List Slot) (variant : Int) (q : Request) : Prop :=
  if sizeofHeader ≤ q.bytes.length then
    q.bytes.length < expectedBytes q.buf ∨
      ∀ s, calledSlot slots variant q.buf (stripPrefix q.clientip) = some s →
        s.argsize ≤ max sizeofHeader (expectedBytes q.buf)
  else
    8 ≤ q.bytes.length ∧ q.bytes.length < expectedBytes q.buf ∨
      ∀ req : Buf, calledSlot slots variant (overlay req 0 q.bytes) (stripPrefix q.clientip) = none

section
variable {table : List HandlerInfo} {slots : List Slot} {variant : Int} {buf buf' : Buf} {bytes : List (BitVec 8)}
  {q : Request} {clientip : Text}

/-! ## What is received -/

/-- The length that the loop waits for. -/
def want (buf : Buf) (bytes : List (BitVec 8)) : Int := expectedBytes (overlay buf 0 (bytes.take 16))

/-- The buffer once a request is received. -/
def filled (buf : Buf) (bytes : List (BitVec 8)) : Buf := overlay buf 0 (bytes.take (max 16 (want buf bytes).toNat))

theorem overlay_overlay (buf : Buf) (front rest : List (BitVec 8)) :
    overlay (overlay buf 0 front) front.length rest = overlay buf 0 (front ++ rest) := by
  funext k
  by_cases hfront : k < front.length
  · rw [overlay_of_lt hfront, overlay_of_mem (Nat.zero_le k) (by omega) 0,
      overlay_of_mem (Nat.zero_le k) (by rw [List.length_append]; omega) 0, Nat.sub_zero,
      List.getD_append _ _ _ _ hfront]
  · have hle : front.length ≤ k := Nat.le_of_not_lt hfront
    by_cases hrest : k < front.length + rest.length
    · rw [overlay_of_mem hle hrest 0, overlay_of_mem (Nat.zero_le k) (by rw [List.length_append]; omega) 0,
        Nat.sub_zero, List.getD_append_right _ _ _ _ hle]
    · rw [overlay_of_le (by omega), overlay_of_le (by omega), overlay_of_le (by rw [List.length_append]; omega)]

theorem take_append_take (bytes : List (BitVec 8)) (e : Int) :
    bytes.take 16 ++ (bytes.drop (bytes.take 16).length).take (e - (bytes.take 16).length).toNat =
      bytes.take (max 16 e.toNat) := by
  rw [List.length_take]
  by_cases h : bytes.length ≤ 16
  · rw [Nat.min_eq_right h, List.drop_length, List.take_nil, List.append_nil, List.take_of_length_le h,
      List.take_of_length_le (by omega)]
  · have hmax : max 16 e.toNat = 16 + (e - 16).toNat := by omega
    rw [Nat.min_eq_left (by omega), hmax, List.take_add]
    rfl

/-- One connection, the two loops being done. -/
theorem serve_eq (table : List HandlerInfo) (variant : Int) (buf : Buf) (q : Request) :
    serve table variant buf q =
      if q.bytes.length < want buf q.bytes then some (filled buf q.bytes, [])
      else
        (processClientPacket table variant (filled buf q.bytes) (stripPrefix q.clientip)).map fun p =>
          (setInt32 p.1 0 p.2, if 0 < p.2 then front (setInt32 p.1 0 p.2) p.2.toNat else []) := by
  have hchunk : q.bytes.take (sizeofHeader - ((0 : Nat) : Int)).toNat = q.bytes.take 16 := rfl
  unfold serve recvLoop
  dsimp only
  rw [hchunk, Nat.zero_add, overlay_overlay, take_append_take]
  have hiff : (((q.bytes.take 16).length + (List.take (want buf q.bytes - (q.bytes.take 16).length).toNat
      (q.bytes.drop (q.bytes.take 16).length)).length : Nat) : Int) < want buf q.bytes ↔
      q.bytes.length < want buf q.bytes := by
    rw [← List.length_append, take_append_take, List.length_take]
    omega
  exact if_congr hiff rfl rfl

theorem overlay_take_of_lt {n k : Nat} (buf : Buf) (bytes : List (BitVec 8)) (h : k < n) :
    overlay buf 0 (bytes.take n) k = overlay buf 0 bytes k := by
  unfold overlay
  simp only [Nat.zero_le, if_true, Nat.sub_zero, List.getD_eq_getElem?_getD, List.getElem?_take, h]

theorem filled_of_lt {k : Nat} (buf : Buf) (bytes : List (BitVec 8)) (h : k < 16) :
    filled buf bytes k = overlay buf 0 bytes k := overlay_take_of_lt buf bytes (by omega)

theorem filled_of_le {k : Nat} (h : max 16 (want buf bytes).toNat ≤ k) : filled buf bytes k = buf k := by
  refine overlay_of_le ?_
  rw [List.length_take]
  omega

theorem want_eq (buf : Buf) (bytes : List (BitVec 8)) : want buf bytes = expectedBytes (overlay buf 0 bytes) := by
  have hagree : Agree 16 (overlay buf 0 (bytes.take 16)) (overlay buf 0 bytes) :=
    fun k hk => overlay_take_of_lt buf bytes hk
  unfold want expectedBytes
  rw [hagree.int32At (by decide)]

/-- A request that gives its own length is waited for in the same way, whatever is in the buffer. -/
theorem want_of_le (buf : Buf) (h : 8 ≤ q.bytes.length) : want buf q.bytes = expectedBytes q.buf := by
  have hagree : Agree 8 (overlay buf 0 q.bytes) q.buf := (agree_overlay buf _ q.bytes).mono h
  rw [want_eq]
  unfold expectedBytes
  rw [hagree.int32At (by decide)]

/-! ## Who is called -/

/-- The handler that a request gets to, the client being whitelisted. -/
def called (table : List HandlerInfo) (variant : Int) (req : Buf) (clientip : Text) : Option HandlerInfo :=
  (findHandler table variant (int32At req 12)).filter fun info => 0 ≤ checkWhitelist info.whitelist clientip

theorem called_toSlot (table : List HandlerInfo) (variant : Int) (req : Buf) (clientip : Text) :
    (called table variant req clientip).map HandlerInfo.toSlot =
      calledSlot (table.map HandlerInfo.toSlot) variant req clientip := by
  unfold called calledSlot findHandler
  rw [List.find?_map, Option.filter_map]
  rfl

theorem processClientPacket_of_called {info : HandlerInfo} (h : called table variant buf clientip = some info) :
    processClientPacket table variant buf clientip = info.variantHandler buf clientip := by
  obtain ⟨hfind, hallowed⟩ := Option.filter_eq_some_iff.mp h
  unfold processClientPacket
  rw [hfind]
  exact if_pos (of_decide_eq_true hallowed)

theorem processClientPacket_of_not_called (h : called table variant buf clientip = none) :
    ∃ req, processClientPacket table variant buf clientip = some (req, 0) ∧ ∀ k, 8 ≤ k → req k = buf k := by
  unfold processClientPacket
  cases hfind : findHandler table variant (int32At buf 12) with
  | none => exact ⟨_, rfl, fun k hk => (setInt32_of_le 0 (by omega)).trans (setInt32_of_le 0 hk)⟩
  | some info =>
    have hallowed : ¬0 ≤ checkWhitelist info.whitelist clientip := by
      unfold called at h
      rw [hfind] at h
      simpa using h
    exact ⟨_, if_neg hallowed, fun k hk => setInt32_of_le 0 (by omega)⟩

theorem called_congr (h : int32At buf 12 = int32At buf' 12) :
    called table variant buf clientip = called table variant buf' clientip := by
  unfold called
  rw [h]

theorem calledSlot_congr (h : int32At buf 12 = int32At buf' 12) :
    calledSlot slots variant buf clientip = calledSlot slots variant buf' clientip := by
  unfold calledSlot
  rw [h]

/-! ## Replies -/

/-- What is sent when the handler is done. -/
def sent (p : Buf × Int) : List (BitVec 8) := if 0 < p.2 then front (setInt32 p.1 0 p.2) p.2.toNat else []

theorem reply_of_lt (h : q.bytes.length < want buf q.bytes) : reply table variant buf q = some [] := by
  unfold reply
  rw [serve_eq, if_pos h]
  rfl

theorem reply_of_le (h : want buf q.bytes ≤ q.bytes.length) : reply table variant buf q =
    (processClientPacket table variant (filled buf q.bytes) (stripPrefix q.clientip)).map sent := by
  unfold reply
  rw [serve_eq, if_neg (Int.not_lt.mpr h), Option.map_map]
  rfl

theorem reply_of_not_called (h : called table variant (filled buf q.bytes) (stripPrefix q.clientip) = none) :
    reply table variant buf q = some [] := by
  by_cases hlt : q.bytes.length < want buf q.bytes
  · exact reply_of_lt hlt
  · obtain ⟨req, heq, -⟩ := processClientPacket_of_not_called h
    rw [reply_of_le (Int.not_lt.mp hlt), heq]
    rfl

/-- A handler sends the same for requests that agree on what it takes. -/
theorem map_sent_congr {n : Nat} {f : Handler} (hf : Local n f) (h : Agree n buf buf') :
    (f buf clientip).map sent = (f buf' clientip).map sent := by
  have hrel := hf.rel clientip h
  cases hreq : f buf clientip with
  | none =>
    rw [hreq] at hrel
    cases hreq' : f buf' clientip with
    | none => rfl
    | some r' =>
      rw [hreq'] at hrel
      cases hrel
  | some r =>
    rw [hreq] at hrel
    cases hreq' : f buf' clientip with
    | none =>
      rw [hreq'] at hrel
      cases hrel
    | some r' =>
      rw [hreq'] at hrel
      cases hrel with
      | some hrel =>
        obtain ⟨hagree, hret⟩ := hrel
        have hle : r.2 ≤ n := hf.le hreq
        unfold sent
        rw [Option.map_some, Option.map_some, ← hret]
        split
        · exact congrArg some ((hagree.setInt32 0 r.2).mono (by omega)).front
        · rfl

/-- **A covered request gets the same reply from any buffer.** -/
theorem reply_congr (h : Covered slots variant q) (htable : table.map HandlerInfo.toSlot = slots) (buf buf' : Buf) :
    reply table variant buf q = reply table variant buf' q := by
  have hagree (buf : Buf) : Agree 16 (filled buf q.bytes) (overlay buf 0 q.bytes) :=
    fun k hk => filled_of_lt buf q.bytes hk
  unfold Covered at h
  split at h
  case isTrue hlen =>
    have hlen16 : 16 ≤ q.bytes.length := Int.ofNat_le.mp hlen
    have hwant (buf : Buf) : want buf q.bytes = expectedBytes q.buf := want_of_le buf (by omega)
    have hheader (buf : Buf) : int32At (filled buf q.bytes) 12 = int32At q.buf 12 :=
      ((hagree buf).int32At (by decide)).trans (((agree_overlay buf _ q.bytes).mono hlen16).int32At (by decide))
    by_cases hlt : q.bytes.length < expectedBytes q.buf
    · rw [reply_of_lt (by rwa [hwant]), reply_of_lt (by rwa [hwant])]
    have hcovered := h.resolve_left hlt
    have hsame : called table variant (filled buf q.bytes) (stripPrefix q.clientip) =
        called table variant (filled buf' q.bytes) (stripPrefix q.clientip) :=
      called_congr ((hheader buf).trans (hheader buf').symm)
    cases hcalled : called table variant (filled buf q.bytes) (stripPrefix q.clientip) with
    | none => rw [reply_of_not_called hcalled, reply_of_not_called (hsame ▸ hcalled)]
    | some info =>
      have hslot := called_toSlot table variant (filled buf q.bytes) (stripPrefix q.clientip)
      rw [hcalled, htable, calledSlot_congr (hheader buf)] at hslot
      have hargsize := hcovered info.toSlot hslot.symm
      have hfilled := agree_overlay buf buf' (q.bytes.take (max 16 (expectedBytes q.buf).toNat))
      rw [reply_of_le (by rw [hwant]; omega), reply_of_le (by rw [hwant]; omega),
        processClientPacket_of_called hcalled, processClientPacket_of_called (hsame ▸ hcalled)]
      refine map_sent_congr info.isLocal ?_
      unfold filled
      rw [hwant, hwant]
      refine hfilled.mono ?_
      rw [List.length_take]
      unfold sizeofHeader at hargsize
      omega
  case isFalse hlen =>
    rcases h with ⟨hle, hlt⟩ | hnone
    · rw [reply_of_lt (by rwa [want_of_le buf hle]), reply_of_lt (by rwa [want_of_le buf' hle])]
    · have hcalled (buf : Buf) : called table variant (filled buf q.bytes) (stripPrefix q.clientip) = none := by
        have hslot := called_toSlot table variant (filled buf q.bytes) (stripPrefix q.clientip)
        rw [htable, calledSlot_congr ((hagree buf).int32At (by decide)), hnone] at hslot
        exact Option.map_eq_none_iff.mp hslot
      rw [reply_of_not_called (hcalled buf), reply_of_not_called (hcalled buf')]

/-! ## Handlers that show the buffer -/

/-- A handler that sends what it takes. -/
def Slot.echo (s : Slot) : HandlerInfo where
  toSlot := s
  variantHandler req _ := some (req, s.argsize)
  isLocal.le h := by
    obtain ⟨-, rfl⟩ := Prod.mk.inj (Option.some.inj h)
    exact le_rfl
  isLocal.rel _ h := .some ⟨h, rfl⟩

def echoes (slots : List Slot) : List HandlerInfo := slots.map Slot.echo

theorem echoes_toSlot (slots : List Slot) : (echoes slots).map HandlerInfo.toSlot = slots := by
  rw [echoes, List.map_map]
  exact List.map_id slots

theorem called_echoes (slots : List Slot) (variant : Int) (req : Buf) (clientip : Text) :
    called (echoes slots) variant req clientip = (calledSlot slots variant req clientip).map Slot.echo := by
  unfold called calledSlot findHandler echoes
  rw [List.find?_map, Option.filter_map]
  rfl

theorem processClientPacket_echoes {s : Slot} (h : calledSlot slots variant buf clientip = some s) :
    processClientPacket (echoes slots) variant buf clientip = some (buf, (s.argsize : Int)) := by
  have hcalled := called_echoes slots variant buf clientip
  rw [h] at hcalled
  exact processClientPacket_of_called hcalled

/-- What was received stays in the buffer, the header apart; of the header only the first number changes when a
handler is called. -/
theorem serverLoop_echoes (slots : List Slot) (variant : Int) (buf : Buf) (q : Request) :
    ∃ req, serverLoop (echoes slots) variant buf q = some req ∧ (∀ k, 8 ≤ k → req k = filled buf q.bytes k) ∧
      ((calledSlot slots variant (filled buf q.bytes) (stripPrefix q.clientip)).isSome →
        ∀ k, 4 ≤ k → req k = filled buf q.bytes k) := by
  have hretsize (req : Buf) (ret : Int) {k : Nat} (hk : 4 ≤ k) : setInt32 req 0 ret k = req k :=
    setInt32_of_le ret hk
  unfold serverLoop
  rw [serve_eq]
  generalize filled buf q.bytes = req
  split
  · exact ⟨req, rfl, fun _ _ => rfl, fun _ _ _ => rfl⟩
  · cases hslot : calledSlot slots variant req (stripPrefix q.clientip) with
    | some s =>
      rw [processClientPacket_echoes hslot]
      exact ⟨_, rfl, fun k hk => hretsize req _ (by omega), fun _ k hk => hretsize req _ hk⟩
    | none =>
      have hcalled := called_echoes slots variant req (stripPrefix q.clientip)
      rw [hslot] at hcalled
      obtain ⟨req', heq, hsame⟩ := processClientPacket_of_not_called hcalled
      rw [heq]
      exact ⟨_, rfl, fun k hk => (hretsize req' 0 (by omega)).trans (hsame k hk), fun h => by cases h⟩

theorem reply_echoes {s : Slot} (hle : want buf q.bytes ≤ q.bytes.length)
    (h : calledSlot slots variant (filled buf q.bytes) (stripPrefix q.clientip) = some s) :
    reply (echoes slots) variant buf q = some (front (setInt32 (filled buf q.bytes) 0 s.argsize) s.argsize) := by
  have hpos : (0 : Int) < s.argsize := by have := s.header_le; omega
  rw [reply_of_le hle, processClientPacket_echoes h]
  exact congrArg some (if_pos hpos)

/-- A byte that the handler takes shows in the reply. -/
theorem reply_ne {s : Slot} {k : Nat} (hle : want buf q.bytes ≤ q.bytes.length)
    (h : calledSlot slots variant (filled buf q.bytes) (stripPrefix q.clientip) = some s) (hk : 4 ≤ k)
    (hlt : k < s.argsize) (hne : filled buf q.bytes k ≠ filled buf' q.bytes k) :
    reply (echoes slots) variant buf q ≠ reply (echoes slots) variant buf' q := by
  have hreply := reply_echoes hle h
  have hnil : reply (echoes slots) variant buf q ≠ some [] := by
    rw [hreply]
    intro hnil
    have hlen := congrArg List.length (Option.some.inj hnil)
    rw [front, List.length_map, List.length_range, List.length_nil] at hlen
    omega
  intro heq
  have hle' : want buf' q.bytes ≤ q.bytes.length := by
    by_contra hlt'
    exact hnil (heq.trans (reply_of_lt (Int.not_le.mp hlt')))
  cases h' : calledSlot slots variant (filled buf' q.bytes) (stripPrefix q.clientip) with
  | none =>
    have hcalled := called_echoes slots variant (filled buf' q.bytes) (stripPrefix q.clientip)
    rw [h'] at hcalled
    exact hnil (heq.trans (reply_of_not_called hcalled))
  | some s' =>
    rw [hreply, reply_echoes hle' h'] at heq
    have hfront := Option.some.inj heq
    have hlen := congrArg List.length hfront
    simp only [front, List.length_map, List.length_range] at hlen
    rw [← hlen] at hfront
    have hbyte := front_inj hfront k hlt
    rw [setInt32_of_le _ (by omega), setInt32_of_le _ (by omega)] at hbyte
    exact hne hbyte

/-! ## Requests that leave a byte behind -/

/-- A request that is too short, with the byte `x` in place `n + 8`. -/
def leaving (n : Nat) (x : BitVec 8) : List (BitVec 8) :=
  0 :: 0 :: 0 :: 0 :: 0xFD :: 0xFF :: 0 :: 0 :: (List.replicate n 0 ++ [x])

theorem filled_leaving {n : Nat} (x : BitVec 8) (h : n + 8 < 65533) : filled buf (leaving n x) (n + 8) = x := by
  have hargsize : int32At (overlay buf 0 (leaving n x)) 4 = 65533 := by
    simp [int32At, overlay, leaving]
  have hwant : want buf (leaving n x) = 65533 := by
    rw [want_eq]
    unfold expectedBytes
    rw [hargsize]
    rfl
  have hlen : (leaving n x).length = n + 9 := by simp [leaving]
  unfold filled
  rw [hwant, List.take_of_length_le (by rw [hlen]; omega),
    overlay_of_mem (Nat.zero_le _) (by rw [hlen]; omega) 0]
  simp [leaving, List.getD_eq_getElem?_getD]

/-- A header that is complete, its length being negative. -/
def headerOf (req : Buf) : List (BitVec 8) :=
  0 :: 0 :: 0 :: 0 :: 0 :: 0 :: 0 :: 0x80 :: (List.range 8).map fun k => req (k + 8)

theorem filled_headerOf {k : Nat} (req : Buf) (hk : 8 ≤ k) (hlt : k < 16) : filled buf (headerOf req) k = req k := by
  rw [filled_of_lt buf _ hlt, overlay_of_mem (Nat.zero_le k) (by simp [headerOf]; omega) 0]
  obtain ⟨j, rfl⟩ := Nat.exists_eq_add_of_le' hk
  have hj : j < 8 := by omega
  simp [headerOf, List.getD_eq_getElem?_getD, hj]

theorem filled_headerOf_msb (req : Buf) : (filled buf (headerOf req) 7).msb = true := by
  rw [filled_of_lt buf _ (by decide), overlay_of_mem (Nat.zero_le 7) (by simp [headerOf]) 0]
  show (0x80 : BitVec 8).msb = true
  decide

theorem want_neg (h : (overlay buf 0 bytes 7).msb = true) : want buf bytes < 0 := by
  have hneg : int32At (overlay buf 0 bytes) 4 < 0 := int32At_neg h
  rw [want_eq]
  unfold expectedBytes sizeofHeader
  dsimp only
  rw [if_pos (by omega)]
  exact hneg

theorem Noninterfering.reply_eq (h : Noninterfering slots variant q) {bytes bytes' : List (BitVec 8)} {req req' : Buf}
    (hreq : serverLoop (echoes slots) variant buf { bytes := bytes, clientip := q.clientip } = some req)
    (hreq' : serverLoop (echoes slots) variant buf { bytes := bytes', clientip := q.clientip } = some req') :
    reply (echoes slots) variant req q = reply (echoes slots) variant req' q := by
  refine h (echoes slots) buf req req' [{ bytes := bytes, clientip := q.clientip }]
    [{ bytes := bytes', clientip := q.clientip }] (echoes_toSlot slots) rfl ?_ ?_
  · rw [Run.run_singleton, hreq]
  · rw [Run.run_singleton, hreq']

/-- A request with a header that gives less than the handler takes. -/
theorem not_noninterfering_of_header (hlen : 16 ≤ q.bytes.length) (hle : expectedBytes q.buf ≤ q.bytes.length)
    {s : Slot} (hs : calledSlot slots variant q.buf (stripPrefix q.clientip) = some s)
    (hlt : max sizeofHeader (expectedBytes q.buf) < s.argsize) : ¬Noninterfering slots variant q := by
  intro h
  have hargsize := s.argsize_lt
  unfold sizeofHeader at hlt
  obtain ⟨n, hn⟩ : ∃ n, max 16 (expectedBytes q.buf).toNat = n + 8 :=
    ⟨max 16 (expectedBytes q.buf).toNat - 8, by omega⟩
  have hwant (buf : Buf) : want buf q.bytes = expectedBytes q.buf := want_of_le buf (by omega)
  have hbyte {buf : Buf} : filled buf q.bytes (n + 8) = buf (n + 8) := filled_of_le (by rw [hwant, hn])
  have hheader (buf : Buf) : int32At (filled buf q.bytes) 12 = int32At q.buf 12 := by
    have hagree : Agree 16 (filled buf q.bytes) q.buf := fun k hk =>
      (filled_of_lt buf q.bytes hk).trans (agree_overlay buf _ q.bytes k (by omega))
    exact hagree.int32At (by decide)
  let start : Buf := fun _ => 0
  obtain ⟨req, hreq, hsame, -⟩ :=
    serverLoop_echoes slots variant start { bytes := leaving n 0, clientip := q.clientip }
  obtain ⟨req', hreq', hsame', -⟩ :=
    serverLoop_echoes slots variant start { bytes := leaving n 1, clientip := q.clientip }
  have hx : req (n + 8) = 0 := (hsame (n + 8) (by omega)).trans (filled_leaving 0 (by omega))
  have hx' : req' (n + 8) = 1 := (hsame' (n + 8) (by omega)).trans (filled_leaving 1 (by omega))
  refine reply_ne (by rw [hwant]; exact hle) ((calledSlot_congr (hheader req)).trans hs)
    (show 4 ≤ n + 8 by omega) (by omega) ?_ (h.reply_eq hreq hreq')
  rw [hbyte, hbyte, hx, hx']
  decide

/-- A part of a header that earlier bytes complete. -/
theorem not_noninterfering_of_part (hlen : q.bytes.length < 16)
    (hle : 8 ≤ q.bytes.length → expectedBytes q.buf ≤ q.bytes.length) {start : Buf} {s : Slot}
    (hs : calledSlot slots variant (overlay start 0 q.bytes) (stripPrefix q.clientip) = some s) :
    ¬Noninterfering slots variant q := by
  intro h
  have hargsize := s.header_le
  -- one client leaves the header behind, the other one another last byte
  obtain ⟨req, hreq, -, hsame⟩ :=
    serverLoop_echoes slots variant start { bytes := headerOf (overlay start 0 q.bytes), clientip := q.clientip }
  obtain ⟨req', hreq', hsame', -⟩ :=
    serverLoop_echoes slots variant start { bytes := List.replicate 16 (start 15 + 1), clientip := q.clientip }
  have hheader : int32At (filled start (headerOf (overlay start 0 q.bytes))) 12 =
      int32At (overlay start 0 q.bytes) 12 := by
    unfold int32At
    rw [filled_headerOf _ (by decide) (by decide), filled_headerOf _ (by decide) (by decide),
      filled_headerOf _ (by decide) (by decide), filled_headerOf _ (by decide) (by decide)]
  have hcalled := hsame (by rw [calledSlot_congr hheader]; exact Option.isSome_of_eq_some hs)
  have hbyte {k : Nat} (hk : 8 ≤ k) (hlt : k < 16) : req k = overlay start 0 q.bytes k :=
    (hcalled k (by omega)).trans (filled_headerOf _ hk hlt)
  have hagree {k : Nat} (hk : 8 ≤ k) (hlt : k < 16) : filled req q.bytes k = overlay start 0 q.bytes k := by
    rw [filled_of_lt req _ hlt]
    by_cases hin : k < q.bytes.length
    · exact agree_overlay req start q.bytes k hin
    · rw [overlay_of_le (by omega), hbyte hk hlt]
  have hfuncid : int32At (filled req q.bytes) 12 = int32At (overlay start 0 q.bytes) 12 := by
    unfold int32At
    rw [hagree (by decide) (by decide), hagree (by decide) (by decide), hagree (by decide) (by decide),
      hagree (by decide) (by decide)]
  have hwant : want req q.bytes ≤ q.bytes.length := by
    by_cases h8 : 8 ≤ q.bytes.length
    · rw [want_of_le req h8]
      exact hle h8
    · have hneg : want req q.bytes < 0 := by
        refine want_neg ?_
        rw [overlay_of_le (by omega), hcalled 7 (by decide)]
        exact filled_headerOf_msb _
      omega
  refine reply_ne hwant ((calledSlot_congr hfuncid).trans hs) (show 4 ≤ 15 by decide) (by omega) ?_
    (h.reply_eq hreq hreq')
  have hlast : filled req' q.bytes 15 = start 15 + 1 := by
    rw [filled_of_lt req' _ (by decide), overlay_of_le (by omega), hsame' 15 (by decide),
      filled_of_lt start _ (by decide)]
    rfl
  rw [hagree (by decide) (by decide), hlast, overlay_of_le (by omega)]
  bv_omega

end

/-- **No earlier request shows in the reply** exactly when the request gives all that is looked at. -/
theorem noninterfering_iff (slots : List Slot) (variant : Int) (q : Request) :
    Noninterfering slots variant q ↔ Covered slots variant q := by
  constructor
  · intro h
    by_contra hcovered
    unfold Covered at hcovered
    split at hcovered
    case isTrue hlen =>
      rw [not_or] at hcovered
      obtain ⟨hle, hargsize⟩ := hcovered
      push Not at hargsize
      obtain ⟨s, hs, hlt⟩ := hargsize
      exact not_noninterfering_of_header (Int.ofNat_le.mp hlen) (Int.not_lt.mp hle) hs hlt h
    case isFalse hlen =>
      rw [not_or] at hcovered
      obtain ⟨hle, hnone⟩ := hcovered
      push Not at hnone
      obtain ⟨start, hs⟩ := hnone
      obtain ⟨s, hs⟩ := Option.ne_none_iff_exists'.mp hs
      refine not_noninterfering_of_part (by unfold sizeofHeader at hlen; omega) (fun h8 => ?_) hs h
      exact Int.not_lt.mp fun hlt => hle ⟨h8, hlt⟩
  · intro h table start buf buf' history history' htable _ _ _
    exact reply_congr h htable buf buf'

/-! ## Addresses and public keys -/

def multigatewayVariant : Int := 3
def multigatewayGetcoinaddr : Int := 1
def multigatewayGetpubkey : Int := 2

/-- Of `struct gateway_info`: the coins that have a daemon, and what the daemons answer. -/
structure Daemons where
  daemons : Int → Bool
  getaccountaddress : Int → Text → Option Text
  validateaddress : Int → Text → Option Text

def Daemons.getDaemonInfo (gp : Daemons) (coinid : Int) : Bool := 0 ≤ coinid ∧ coinid < 64 ∧ gp.daemons coinid

/-- The text in a field of `n` bytes; it ends at a null. -/
def textAt (buf : Buf) (i n : Nat) : Option Text :=
  let bytes := (List.range n).map fun k => buf (i + k)
  if 0#8 ∈ bytes then some ((bytes.takeWhile (· ≠ 0#8)).map fun b => Char.ofNat b.toNat) else none

/-- `safecopy` fills the field up with nulls. -/
def safecopyBytes (text : Text) (n : Nat) : List (BitVec 8) :=
  (textBytes text).take n ++ List.replicate (n - text.length) 0

/-- The places of the fields of `struct directnet_getpubkey`. -/
def coinidAt : Nat := 16
def flagAt : Nat := 28
def nxtAddrAt : Nat := 32
def pubkeyAt : Nat := 56
def coinaddrAt : Nat := 184
def sizeofGetpubkey : Nat := 248

/-- The request with the address in it, if the daemon gives one. -/
def getCoinaddr (gp : Daemons) (req : Buf) (coinid : Int) (nxtAddr : Text) : Option Buf :=
  match gp.getaccountaddress coinid nxtAddr with
  | some retstr => some (setInt32 (overlay req coinaddrAt (safecopyBytes retstr 64)) flagAt 1)
  | none => some (setInt32 req flagAt (-1))

/-- A public key that does not fit has no defined effect. -/
def getBitcoindPubkey (render : Text → Text) (gp : Daemons) (req : Buf) (coinid : Int) (coinaddr : Text) :
    Option Buf :=
  let req := overlay req pubkeyAt (textBytes "error generating pubkey".toList ++ [0])
  match gp.validateaddress coinid coinaddr with
  | none => some (setInt32 req flagAt (-1))
  | some retstr =>
    match cJSONParse render retstr with
    | none => some (setInt32 req flagAt 1)
    | some json =>
      let pubkey := copyCJSON (getObjectItem json "pubkey".toList)
      if pubkey.length < 128 then some (setInt32 (overlay req pubkeyAt (textBytes pubkey ++ [0])) flagAt 1)
      else none

/-- The two texts are printed first. -/
def getpubkeyRequest (render : Text → Text) (gp : Daemons) (req : Buf) : Option Buf :=
  let req := setInt32 req flagAt 0
  if gp.getDaemonInfo (int32At req coinidAt) then
    match textAt req nxtAddrAt 24, textAt req coinaddrAt 64 with
    | some nxtAddr, some coinaddr =>
      if int32At req 12 = multigatewayGetcoinaddr then getCoinaddr gp req (int32At req coinidAt) nxtAddr
      else if int32At req 12 = multigatewayGetpubkey then
        getBitcoindPubkey render gp req (int32At req coinidAt) coinaddr
      else some (setInt32 req flagAt (-1))
    | _, _ => none
  else some req

def processDirectnetGetpubkey (render : Text → Text) (gp : Daemons) : Handler := fun req _ =>
  (getpubkeyRequest render gp req).map fun req => (req, (sizeofGetpubkey : Int))

section
variable {render : Text → Text} {gp : Daemons} {req req' : Buf} {coinid : Int} {n : Nat}

theorem Agree.textAt (h : Agree n req req') {i m : Nat} (hi : i + m ≤ n) :
    textAt req i m = Server.textAt req' i m := by
  have hbytes : (List.range m).map (fun k => req (i + k)) = (List.range m).map fun k => req' (i + k) :=
    List.map_congr_left fun k hk => h (i + k) (by have := List.mem_range.mp hk; omega)
  unfold Server.textAt
  rw [hbytes]

theorem rel_map {α β γ δ : Type} {r : α → β → Prop} {r' : γ → δ → Prop} {f : α → γ} {g : β → δ} {o : Option α}
    {o' : Option β} (h : Option.Rel r o o') (hfg : ∀ a b, r a b → r' (f a) (g b)) :
    Option.Rel r' (o.map f) (o'.map g) := by
  cases h with
  | some h => exact .some (hfg _ _ h)
  | none => exact .none

theorem getCoinaddr_rel (h : Agree n req req') (nxtAddr : Text) :
    Option.Rel (Agree n) (getCoinaddr gp req coinid nxtAddr) (getCoinaddr gp req' coinid nxtAddr) := by
  unfold getCoinaddr
  cases gp.getaccountaddress coinid nxtAddr with
  | none => exact .some (h.setInt32 _ _)
  | some retstr => exact .some ((h.overlay _ _).setInt32 _ _)

theorem getBitcoindPubkey_rel (h : Agree n req req') (coinaddr : Text) :
    Option.Rel (Agree n) (getBitcoindPubkey render gp req coinid coinaddr)
      (getBitcoindPubkey render gp req' coinid coinaddr) := by
  have herror := h.overlay pubkeyAt (textBytes "error generating pubkey".toList ++ [0])
  unfold getBitcoindPubkey
  cases gp.validateaddress coinid coinaddr with
  | none => exact .some (herror.setInt32 _ _)
  | some retstr =>
    dsimp only
    cases cJSONParse render retstr with
    | none => exact .some (herror.setInt32 _ _)
    | some json =>
      dsimp only
      split
      · exact .some ((herror.overlay _ _).setInt32 _ _)
      · exact .none

theorem getpubkeyRequest_rel (h : Agree sizeofGetpubkey req req') :
    Option.Rel (Agree sizeofGetpubkey) (getpubkeyRequest render gp req) (getpubkeyRequest render gp req') := by
  have hflag := h.setInt32 flagAt 0
  unfold getpubkeyRequest
  dsimp only
  rw [hflag.int32At (i := coinidAt) (by decide), hflag.int32At (i := 12) (by decide),
    hflag.textAt (i := nxtAddrAt) (by decide), hflag.textAt (i := coinaddrAt) (by decide)]
  split
  · split
    · split
      · exact getCoinaddr_rel hflag _
      · split
        · exact getBitcoindPubkey_rel hflag _
        · exact .some (hflag.setInt32 _ _)
    · exact .none
  · exact .some hflag

theorem processDirectnetGetpubkey_local (render : Text → Text) (gp : Daemons) :
    Local sizeofGetpubkey (processDirectnetGetpubkey render gp) where
  le h := by
    obtain ⟨req, -, heq⟩ := Option.map_eq_some_iff.mp h
    obtain ⟨-, rfl⟩ := Prod.mk.inj heq
    exact le_rfl
  rel _ h := rel_map (getpubkeyRequest_rel h) fun _ _ hagree => ⟨hagree, rfl⟩

end

/-- The handlers of the gateway for `struct directnet_getpubkey`. -/
def gatewayHandlers (render : Text → Text) (gp : Daemons) (whitelist : List Text) (h : whitelist ≠ []) :
    List HandlerInfo :=
  [multigatewayGetcoinaddr, multigatewayGetpubkey].map fun funcid =>
    { variant := multigatewayVariant
      funcid := funcid
      argsize := sizeofGetpubkey
      whitelist := some whitelist
      whitelist_ne := fun heq => h (Option.some.inj heq)
      variantHandler := processDirectnetGetpubkey render gp
      isLocal := processDirectnetGetpubkey_local render gp }

/-- A request for the address of `nxtAddr`. -/
def coinaddrRequest (clientip nxtAddr : String) : Request where
  bytes := int32Bytes 248 ++ int32Bytes 248 ++ int32Bytes 3 ++ int32Bytes 1 ++ int32Bytes 4 ++ int32Bytes 0 ++
    int32Bytes 1 ++ int32Bytes 0 ++ safecopyBytes nxtAddr.toList 24 ++ List.replicate 192 0
  clientip := clientip.toList

/-- Only the header of such a request. -/
def bareRequest (clientip : String) : Request where
  bytes := int32Bytes 16 ++ int32Bytes 16 ++ int32Bytes 3 ++ int32Bytes 1
  clientip := clientip.toList

/-- A header alone is answered with what another client asked for. -/
theorem not_forall_noninterfering :
    ¬∀ (slots : List Slot) (variant : Int) (q : Request), Noninterfering slots variant q := by
  intro h
  let gp : Daemons :=
    { daemons := fun coinid => coinid = 4
      getaccountaddress := fun _ nxtAddr => some ('D' :: nxtAddr)
      validateaddress := fun _ _ => none }
  let table := gatewayHandlers id gp ["10.0.0.1".toList, "10.0.0.2".toList] (by decide)
  let served (nxtAddr : String) : Option Buf :=
    serverLoop table multigatewayVariant (fun _ => 0) (coinaddrRequest "10.0.0.1" nxtAddr)
  obtain ⟨buf, hbuf⟩ : ∃ buf, served "1234" = some buf := Option.isSome_iff_exists.mp (by decide +kernel)
  obtain ⟨buf', hbuf'⟩ : ∃ buf, served "5678" = some buf := Option.isSome_iff_exists.mp (by decide +kernel)
  have hsame := h (table.map HandlerInfo.toSlot) multigatewayVariant (bareRequest "10.0.0.2") table (fun _ => 0)
    buf buf' [coinaddrRequest "10.0.0.1" "1234"] [coinaddrRequest "10.0.0.1" "5678"] rfl rfl
    ((Run.run_singleton _).trans hbuf) ((Run.run_singleton _).trans hbuf')
  have hreplies :
      ((served "1234").bind fun buf => reply table multigatewayVariant buf (bareRequest "10.0.0.2")) ≠
        (served "5678").bind fun buf => reply table multigatewayVariant buf (bareRequest "10.0.0.2") := by
    decide +kernel
  rw [hbuf, hbuf'] at hreplies
  exact hreplies hsame

end NXTServices.Server
