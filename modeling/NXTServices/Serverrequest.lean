import NXTServices.Registry
import NXTServices.Serverdata

/-!
# A call to a server: `server_request` of `utils/NXTsock.h`

* `prepared` : the header of a request, with the sizes of the registered handler where the caller gives none;
* `Connection`, `serverRequest` : one call on a connection of its own;
* `waitLoop_of_isPrefix` : a reply that arrives in pieces, or is cut off;
* `reply_front` : what a server sends for the front of a buffer;
* `serverRequest_eq` : **a call to a server is a call of the handler**, on the caller's own buffer;
* `serverRequest_refused` : a call that no handler is there for;
* `int32At_prepared` : the sizes that the caller leaves open.
-/

namespace NXTServices.Server
open Protocol
open Registry (slotOf)

/-! ## The client -/

/-- `sizeof(struct server_request)`: the header, six numbers and the account. -/
def sizeofServerRequest : Int := 16 + 6 * 4 + 24

def setSize (req : Buf) (i : Nat) (size : Int) : Buf := if int32At req i = 0 then setInt32 req i size else req

/-- The request that is sent. -/
def prepared {H : Type} (handlers : List (Registry.HandlerInfo H)) (req : Buf) (variant funcid : Int) : Buf :=
  let req := setInt32 (setInt32 req 8 variant) 12 funcid
  let req :=
    match slotOf handlers variant funcid with
    | some info => setSize (setSize req 4 info.argsize) 0 info.retsize
    | none => req
  setSize req 4 sizeofServerRequest

/-- What becomes of a connection: whether it is made, whether the request goes out, and what comes back for it. -/
structure Connection where
  connects : Bool := true
  sends : Bool := true
  segments : List (BitVec 8) → Segments

/-- The caller's buffer and socket afterwards, and the result. -/
structure Requested where
  req : Buf
  sdp : Int
  rc : Int

/-- A socket that is there is used, and closed at the end as a new one is. -/
def serverRequest {H : Type} (handlers : List (Registry.HandlerInfo H)) (c : Connection) (sdp : Int) (req : Buf)
    (variant funcid : Int) : Requested :=
  let req := prepared handlers req variant funcid
  let retsize := int32At req 0
  if sdp < 0 ∧ ¬c.connects then { req := req, sdp := -1, rc := -1 }
  else if ¬c.sends then { req := req, sdp := -1, rc := -1 }
  else if 0 < retsize then
    let w := waitForServerdata req retsize (c.segments (front req (int32At req 4).toNat))
    { req := w.buffer, sdp := -1, rc := w.rc }
  else { req := req, sdp := -1, rc := 0 }

/-! ## The reply arrives -/

section
variable {buf : Buf} {got whole bytes : List (BitVec 8)} {segs : Segments}

theorem int32At_setInt32 (buf : Buf) (i : Nat) {n : Int} (hlow : -2 ^ 31 ≤ n) (hhigh : n < 2 ^ 31) :
    int32At (setInt32 buf i n) i = n := by
  have hbyte (k : Nat) (hk : k < 4) : setInt32 buf i n (i + k) = (BitVec.ofInt 32 n).extractLsb' (8 * k) 8 := by
    have hlen : (int32Bytes n).length = 4 := rfl
    unfold setInt32
    rw [overlay_of_mem (Nat.le_add_right i k) (by omega) 0#8, Nat.add_sub_cancel_left, int32Bytes,
      List.getD_eq_getElem?_getD, List.getElem?_map, List.getElem?_range hk]
    rfl
  have hvalue : int32At (setInt32 buf i n) i = (BitVec.ofInt 32 n).toInt := by
    have hfirst : setInt32 buf i n i = (BitVec.ofInt 32 n).extractLsb' 0 8 := hbyte 0 (by decide)
    unfold int32At
    rw [hbyte 1 (by decide), hbyte 2 (by decide), hbyte 3 (by decide), hfirst]
    congr 1
    apply BitVec.eq_of_getLsbD_eq
    intro j hj
    simp only [BitVec.getLsbD_append, BitVec.getLsbD_extractLsb']
    by_cases h0 : j < 8
    · simp [h0]
    · by_cases h1 : j < 16
      · simp [h0, show j - 8 < 8 by omega, show 8 + (j - 8) = j by omega]
      · by_cases h2 : j < 24
        · simp [h0, show ¬ j - 8 < 8 by omega, show j - 8 - 8 < 8 by omega, show 16 + (j - 8 - 8) = j by omega]
        · simp [h0, show ¬ j - 8 < 8 by omega, show ¬ j - 8 - 8 < 8 by omega, show j - 8 - 8 - 8 < 8 by omega,
            show 24 + (j - 8 - 8 - 8) = j by omega]
  rw [hvalue, BitVec.toInt_ofInt, Int.bmod_eq_of_le (by omega) (by omega)]

theorem length_front (buf : Buf) (n : Nat) : (front buf n).length = n := by simp [front]

theorem agree_overlay_front (buf req : Buf) (n : Nat) : Agree n (overlay buf 0 (front req n)) req := by
  intro k hk
  have hlen : (front req n).length = n := length_front req n
  rw [overlay_of_mem (Nat.zero_le k) (by omega) 0#8, Nat.sub_zero, front, List.getD_eq_getElem?_getD, List.getElem?_map,
    List.getElem?_range hk]
  rfl

theorem waitLoop_closed {len : Int} (hlt : got.length < len) (h : stream segs = []) (buf : Buf) :
    waitLoop len got.length (overlay buf 0 got) segs =
    { buffer := overlay buf 0 got, total := got.length, rc := -1 } := by
  have hnone : (recv (len - got.length).toNat segs).1 = [] := by
    by_contra hne
    have hstream := stream_of_recv_ne hne
    rw [h] at hstream
    exact hne (List.append_eq_nil_iff.mp hstream.symm).1
  rw [waitLoop, if_pos hlt]
  exact if_pos hnone

/-- **A reply in pieces**: the loop gets all of it, or finds the connection closed. Until the header is there it goes
by the caller's `len`. -/
theorem waitLoop_of_isPrefix {len : Int} (hwhole : 16 ≤ whole.length) (hsize : retsize whole = whole.length)
    (hpre : (got ++ stream segs) <+: whole)
    (hlen : got.length < 16 ∧ 16 ≤ len ∨ 16 ≤ got.length ∧ len = whole.length) :
    (got ++ stream segs = whole → waitLoop len got.length (overlay buf 0 got) segs =
        { buffer := overlay buf 0 whole, total := whole.length, rc := whole.length }) ∧
      (got ++ stream segs ≠ whole → (waitLoop len got.length (overlay buf 0 got) segs).rc = -1) := by
  induction hn : (stream segs).length using Nat.strong_induction_on generalizing got segs len with
  | _ n ih =>
    obtain ⟨rest, hrest⟩ := hpre
    have hlong := congrArg List.length hrest
    simp only [List.length_append] at hlong
    by_cases hlt : got.length < len
    · rcases waitLoop_step buf segs hlt with ⟨chunk, -, -, left, hstream, hless, hloop⟩ | ⟨hnone, -⟩
      · have hgot : got ++ chunk ++ stream left = got ++ stream segs := by rw [hstream, List.append_assoc]
        have hnext : (got ++ chunk).length < 16 ∧ 16 ≤ nextLen len (got ++ chunk).length
            (overlay buf 0 (got ++ chunk)) ∨
            16 ≤ (got ++ chunk).length ∧
              nextLen len (got ++ chunk).length (overlay buf 0 (got ++ chunk)) = whole.length := by
          by_cases hheader : (got ++ chunk).length < 16
          · refine .inl ⟨hheader, ?_⟩
            rw [nextLen_of_short hheader]
            rw [List.length_append] at hheader
            omega
          · refine .inr ⟨by omega, ?_⟩
            have hfront : whole = got ++ chunk ++ (stream left ++ rest) := by
              rw [← List.append_assoc, hgot, hrest]
            rw [nextLen_of_header (Nat.le_of_not_lt hheader), ← hsize, hfront,
              retsize_append (by omega) (stream left ++ rest)]
        rw [hloop, ← hgot]
        exact ih _ (hn ▸ hless) (hgot ▸ ⟨rest, hrest⟩) hnext rfl
      · rw [waitLoop_closed hlt hnone, hnone, List.append_nil]
        rw [hnone] at hlong
        refine ⟨fun hall => ?_, fun _ => rfl⟩
        have := congrArg List.length hall
        omega
    · have hdone : got ++ stream segs = whole := by
        have hnil : rest = [] := List.length_eq_zero_iff.mp (by omega)
        rw [← hrest, hnil, List.append_nil]
      have hnone : stream segs = [] := List.length_eq_zero_iff.mp (by omega)
      refine ⟨fun _ => ?_, fun hne => absurd hdone hne⟩
      rw [waitLoop, if_neg hlt, ← hdone, hnone, List.append_nil]

/-! ## The server's part -/

variable {table : List HandlerInfo} {variant : Int} {info : HandlerInfo} {req out : Buf} {ret : Int} {clientip : Text}

/-- A server receives the front of a buffer whole. -/
theorem filled_front (hlow : 16 ≤ int32At req 4) (hlt : int32At req 4 < 65534) (buf : Buf) :
    want buf (front req (int32At req 4).toNat) = int32At req 4 ∧
      Agree (int32At req 4).toNat (filled buf (front req (int32At req 4).toNat)) req := by
  have hfront := agree_overlay_front buf req (int32At req 4).toNat
  have hwant : want buf (front req (int32At req 4).toNat) = int32At req 4 := by
    rw [want_eq, expectedBytes, hfront.int32At (by omega)]
    unfold sizeofHeader
    split
    · rfl
    · next hsame =>
      by_contra hne
      exact hsame ⟨hlt, hne⟩
  refine ⟨hwant, ?_⟩
  unfold filled
  rwa [hwant, List.take_of_length_le (by rw [length_front]; omega)]

/-- **What a server sends for the front of a buffer** is what the handler makes of the buffer, whatever the earlier
requests left behind. -/
theorem reply_front (hcalled : called table variant req (stripPrefix clientip) = some info)
    (hargsize : info.argsize ≤ int32At req 4) (hlt : int32At req 4 < 65534)
    (hcall : info.variantHandler req (stripPrefix clientip) = some (out, ret)) (buf : Buf) :
    reply table variant buf { bytes := front req (int32At req 4).toNat, clientip := clientip } =
    some (sent (out, ret)) := by
  have hheader := info.header_le
  obtain ⟨hwant, hfilled⟩ := @filled_front req (by omega) hlt buf
  have hagree := hfilled.mono (show info.argsize ≤ _ by omega)
  have hsame : called table variant (filled buf (front req (int32At req 4).toNat)) (stripPrefix clientip) =
      called table variant req (stripPrefix clientip) := called_congr (hagree.int32At hheader)
  rw [reply_of_le (by rw [hwant, length_front]; omega), processClientPacket_of_called (hsame.trans hcalled),
    map_sent_congr info.isLocal hagree, hcall]
  rfl

theorem sent_of_pos (hret : 0 < ret) : sent (out, ret) = front (setInt32 out 0 ret) ret.toNat := if_pos hret

theorem retsize_sent (hlow : 16 ≤ ret) (hhigh : ret < 2 ^ 31) : retsize (sent (out, ret)) = ret := by
  rw [sent_of_pos (by omega), retsize, (agree_overlay_front _ (setInt32 out 0 ret) ret.toNat).int32At (by omega),
    int32At_setInt32 out 0 (by omega) hhigh]

/-! ## The call -/

theorem serverRequest_sdp {H : Type} (handlers : List (Registry.HandlerInfo H)) (c : Connection) (sdp : Int) (req : Buf)
    (variant funcid : Int) : (serverRequest handlers c sdp req variant funcid).sdp = -1 := by
  unfold serverRequest
  dsimp only
  split_ifs <;> rfl

/-- **A call to a server is a call of the handler.** The server knows the function of the request and lets the client
use it, and the request gives all that the handler takes; `out` and `ret` are what the handler makes of the caller's own
buffer. Whatever earlier requests left at the server, and however its reply is split up, the caller's buffer ends as the
handler leaves it; the caller gets `-1` when there is no connection, or when it is closed too soon. The socket is
closed in each case. -/
theorem serverRequest_eq {H : Type} (handlers : List (Registry.HandlerInfo H)) (call : Buf) (funcid : Int)
    (hreq : prepared handlers call variant funcid = req)
    (hcalled : called table variant req (stripPrefix clientip) = some info)
    (hargsize : info.argsize ≤ int32At req 4) (hlt : int32At req 4 < 65534) (hretsize : 16 ≤ int32At req 0)
    (hcall : info.variantHandler req (stripPrefix clientip) = some (out, ret)) (hret : 16 ≤ ret) :
    ∃ bytes, (∀ buf, reply table variant buf { bytes := front req (int32At req 4).toNat, clientip := clientip } =
      some bytes) ∧
      ∀ (c : Connection) (sdp : Int), stream (c.segments (front req (int32At req 4).toNat)) <+: bytes →
        let r := serverRequest handlers c sdp call variant funcid
        r.sdp = -1 ∧
          if (0 ≤ sdp ∨ c.connects) ∧ c.sends ∧ stream (c.segments (front req (int32At req 4).toNat)) = bytes then
            r.rc = ret ∧ Agree ret.toNat r.req (setInt32 out 0 ret) ∧ ∀ k, ret.toNat ≤ k → r.req k = req k
          else r.rc = -1 := by
  have hle := info.isLocal.le hcall
  have hsize : retsize (sent (out, ret)) = ret := retsize_sent hret (by omega)
  have hsent : sent (out, ret) = front (setInt32 out 0 ret) ret.toNat := sent_of_pos (by omega)
  have hlen : (sent (out, ret)).length = ret.toNat := by rw [hsent, length_front]
  refine ⟨sent (out, ret), reply_front hcalled hargsize hlt hcall, ?_⟩
  intro c sdp hpre r
  have hr : r.req = (serverRequest handlers c sdp call variant funcid).req ∧
      r.rc = (serverRequest handlers c sdp call variant funcid).rc := ⟨rfl, rfl⟩
  refine ⟨serverRequest_sdp handlers c sdp call variant funcid, ?_⟩
  unfold serverRequest at hr
  dsimp only at hr
  rw [hreq] at hr
  by_cases hconnects : 0 ≤ sdp ∨ c.connects
  · have hopen : ¬(sdp < 0 ∧ ¬c.connects) := fun hfail => hconnects.elim (fun h => by omega) hfail.2
    rw [if_neg hopen] at hr
    by_cases hsends : c.sends
    · have hnil : overlay req 0 [] = req := funext fun k => overlay_of_le (Nat.zero_le k)
      have hloop := @waitLoop_of_isPrefix req [] (sent (out, ret)) (c.segments (front req (int32At req 4).toNat))
        (int32At req 0) (by omega) (by omega) hpre (.inl ⟨by decide, hretsize⟩)
      rw [hnil, List.nil_append] at hloop
      rw [if_neg (not_not_intro hsends), if_pos (by omega)] at hr
      by_cases hstream : stream (c.segments (front req (int32At req 4).toNat)) = sent (out, ret)
      · have hwait : waitForServerdata req (int32At req 0) (c.segments (front req (int32At req 4).toNat)) = _ :=
          hloop.1 hstream
        rw [hwait] at hr
        rw [if_pos ⟨hconnects, hsends, hstream⟩, hr.1, hr.2]
        dsimp only
        refine ⟨by omega, ?_, fun k hk => overlay_of_le (by rw [hlen, Nat.zero_add]; exact hk)⟩
        rw [hsent]
        exact agree_overlay_front req _ _
      · rw [if_neg fun hok => hstream hok.2.2, hr.2]
        exact hloop.2 hstream
    · rw [if_neg fun hok => hsends hok.2.1, hr.2, if_pos hsends]
  · rw [if_neg fun hok => hconnects hok.1, hr.2, if_pos]
    rw [not_or] at hconnects
    exact ⟨by omega, hconnects.2⟩

/-- A function for one address, which sends what it takes. -/
def echoSlot : Slot where
  variant := 0
  funcid := 7
  argsize := 24
  whitelist := some ["10.0.0.2".toList]
  whitelist_ne := by decide

theorem open_to_all : (none : Option (List Text)) ≠ some [] := by decide

def echoEntry : Registry.HandlerInfo Unit where
  variantHandler := ()
  variant := 0
  funcid := 7
  argsize := 24
  retsize := 24
  whitelist := none
  whitelist_ne := open_to_all

def numberRequest : Buf := setInt32 (fun _ => 0#8) 16 5

/-- The reply of the server, its buffer full of ones. -/
def echoReply (bytes : List (BitVec 8)) : List (BitVec 8) :=
  (reply (echoes [echoSlot]) 0 (fun _ => 0xff#8) { bytes := bytes, clientip := "::ffff:10.0.0.2".toList }).getD []

/-- It comes in two pieces. -/
def piecesConnection : Connection where
  segments bytes := [(echoReply bytes).take 10, (echoReply bytes).drop 10]

theorem serverRequest_eq_pieces :
    let r := serverRequest [echoEntry] piecesConnection (-1) numberRequest 0 7
    r.rc = 24 ∧ int32At r.req 16 = 5 := by
  intro r
  let req := prepared [echoEntry] numberRequest 0 7
  have hfuncid : int32At req 12 = 7 := by decide +kernel
  have hcalled : called (echoes [echoSlot]) 0 req (stripPrefix "::ffff:10.0.0.2".toList) = some echoSlot.echo := by
    unfold called
    rw [hfuncid]
    rfl
  obtain ⟨bytes, hreply, hcall⟩ := serverRequest_eq [echoEntry] numberRequest 7 rfl hcalled (by decide +kernel)
    (by decide +kernel) (by decide +kernel) rfl (by decide)
  have hbytes : echoReply (front req (int32At req 4).toNat) = bytes := by
    unfold echoReply
    rw [hreply]
    rfl
  have hstream : stream (piecesConnection.segments (front req (int32At req 4).toNat)) = bytes := by
    rw [← hbytes]
    decide +kernel
  have hdone := (hcall piecesConnection (-1) (hstream ▸ List.prefix_rfl)).2
  rw [if_pos ⟨.inr rfl, rfl, hstream⟩] at hdone
  obtain ⟨hrc, hagree, -⟩ := hdone
  refine ⟨hrc, (hagree.int32At (by decide)).trans ?_⟩
  decide +kernel

/-- A request that no handler is called for: the client gets `-1`. -/
theorem serverRequest_refused {H : Type} (handlers : List (Registry.HandlerInfo H)) (call : Buf) (funcid : Int)
    (hreq : prepared handlers call variant funcid = req)
    (hcalled : called table variant req (stripPrefix clientip) = none)
    (hlow : 16 ≤ int32At req 4) (hlt : int32At req 4 < 65534) (hretsize : 0 < int32At req 0) :
    (∀ buf, reply table variant buf { bytes := front req (int32At req 4).toNat, clientip := clientip } = some []) ∧
      ∀ (c : Connection) (sdp : Int), stream (c.segments (front req (int32At req 4).toNat)) <+: [] →
        (serverRequest handlers c sdp call variant funcid).rc = -1 := by
  refine ⟨fun buf => ?_, fun c sdp hpre => ?_⟩
  · have hagree := (filled_front hlow hlt buf).2
    apply reply_of_not_called
    rw [← hcalled]
    exact called_congr (hagree.int32At (by omega))
  · have hnil : overlay req 0 [] = req := funext fun k => overlay_of_le (Nat.zero_le k)
    have hclosed := @waitLoop_closed [] _ (int32At req 0) hretsize (List.prefix_nil.mp hpre) req
    rw [hnil] at hclosed
    have hwait : waitForServerdata req (int32At req 0) (c.segments (front req (int32At req 4).toNat)) = _ := hclosed
    unfold serverRequest
    dsimp only
    rw [hreq, hwait]
    split_ifs <;> rfl

/-! ## The header -/

theorem int32At_setInt32_of_ne {i j : Nat} (h : i + 4 ≤ j ∨ j + 4 ≤ i) (buf : Buf) (n : Int) :
    int32At (setInt32 buf i n) j = int32At buf j := by
  have hbyte (k : Nat) (hk : k < 4) : setInt32 buf i n (j + k) = buf (j + k) := by
    have hlen : (int32Bytes n).length = 4 := rfl
    rcases h with h | h
    · exact overlay_of_le (by omega)
    · exact overlay_of_lt (by omega)
  have hfirst : setInt32 buf i n j = buf j := hbyte 0 (by decide)
  unfold int32At
  rw [hbyte 1 (by decide), hbyte 2 (by decide), hbyte 3 (by decide), hfirst]

theorem int32At_setSize_of_ne {i j : Nat} (h : i + 4 ≤ j ∨ j + 4 ≤ i) (buf : Buf) (size : Int) :
    int32At (setSize buf i size) j = int32At buf j := by
  unfold setSize
  split
  · exact int32At_setInt32_of_ne h buf size
  · rfl

/-- **The sizes that the caller leaves open** are those of the registration. -/
theorem int32At_prepared {H : Type} {handlers : List (Registry.HandlerInfo H)} {call : Buf} {variant funcid : Int}
    {entry : Registry.HandlerInfo H} (hentry : slotOf handlers variant funcid = some entry)
    (hargsize : int32At call 4 = 0) (hretsize : int32At call 0 = 0) (hlow : 0 < entry.argsize)
    (hhigh : entry.argsize < 2 ^ 31) (hret : -2 ^ 31 ≤ entry.retsize) (hret' : entry.retsize < 2 ^ 31)
    (hfuncid : -2 ^ 31 ≤ funcid) (hfuncid' : funcid < 2 ^ 31) :
    int32At (prepared handlers call variant funcid) 0 = entry.retsize ∧
      int32At (prepared handlers call variant funcid) 4 = entry.argsize ∧
      int32At (prepared handlers call variant funcid) 12 = funcid := by
  let named := setInt32 (setInt32 call 8 variant) 12 funcid
  have hnamed {i : Nat} (hi : i + 4 ≤ 8) : int32At named i = int32At call i := by
    rw [int32At_setInt32_of_ne (by omega), int32At_setInt32_of_ne (by omega)]
  have harg : setSize named 4 entry.argsize = setInt32 named 4 entry.argsize :=
    if_pos ((hnamed (by decide)).trans hargsize)
  have hargAt : int32At (setInt32 named 4 entry.argsize) 4 = entry.argsize := int32At_setInt32 _ _ (by omega) hhigh
  have hfirst : int32At (setInt32 named 4 entry.argsize) 0 = 0 := by
    rw [int32At_setInt32_of_ne (by decide), hnamed (by decide), hretsize]
  have hreq : prepared handlers call variant funcid = setInt32 (setInt32 named 4 entry.argsize) 0 entry.retsize := by
    unfold prepared
    dsimp only
    rw [hentry]
    dsimp only
    rw [harg, setSize, setSize, if_pos hfirst, if_neg]
    rw [int32At_setInt32_of_ne (by decide), hargAt]
    omega
  rw [hreq, int32At_setInt32 _ _ hret hret', int32At_setInt32_of_ne (by decide), hargAt,
    int32At_setInt32_of_ne (by decide), int32At_setInt32_of_ne (by decide), int32At_setInt32 _ _ hfuncid hfuncid']
  exact ⟨rfl, rfl, rfl⟩

end

end NXTServices.Server
