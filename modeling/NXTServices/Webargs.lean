import NXTServices.Lib.Run
import NXTServices.Text

/-!
# The arguments of web requests: `libwebsockets/test-server.c`

* `Lws` : what is known of `lws_hdr_copy`, which is not part of the program;
* `Request`, `dumpHandshakeInfo`, `callbackHttp` : a request, and the text that its handler is called with;
* `Callback`, `step` : the requests of a server, one after another; the state is `NXTprotocol_parms`;
* `run_parms` : the buffer holds the arguments of the last request that had some;
* `along_passesOwn_iff` : the runs in which each handler gets the arguments of its own request.
-/

namespace NXTServices.Web

/-! ## Headers -/

/-- `hdrCopy buf header` is what stands in a buffer of 4096 bytes after `lws_hdr_copy`: a header that fits is
copied whole, and nothing is written behind the buffer. -/
structure Lws where
  hdrCopy : Text → Text → Text
  copies : ∀ buf header, header.length < 4096 → hdrCopy buf header = header
  fits : ∀ buf header, buf.length < 4096 → (hdrCopy buf header).length < 4096

/-- The copy fails when the header is too long. -/
def lws : Lws where
  hdrCopy buf header := if header.length < 4096 then header else buf
  copies _ _ h := if_pos h
  fits _ header h := by
    split
    · assumption
    · exact h

def tokenNames : List String :=
  ["GET URI", "POST URI", "Host", "Connection", "key 1", "key 2", "Protocol", "Upgrade", "Origin", "Draft", "Challenge",
    "Key", "Version", "Sworigin", "Extensions", "Accept", "Nonce", "Http", "Accept:", "If-Modified-Since:",
    "Accept-Encoding:", "Accept-Language:", "Pragma:", "Cache-Control:", "Authorization:", "Cookie:", "Content-Length:",
    "Content-Type:", "Date:", "Range:", "Referer:", "Uri-Args:", "MuxURL"]

def wsiTokenPostUri : Nat := 1
def wsiTokenHttpUriArgs : Nat := 31

/-- `header n` is the text of the header `tokenNames[n]`, empty when the request has none, and `stack` what
stands in the buffer at first. -/
structure Request where
  uri : Text
  header : Nat → Text
  stack : Text := []
  stack_lt : stack.length < 4096 := by decide

def Request.args (q : Request) : Text := q.header wsiTokenHttpUriArgs

/-- The loop from header `n` on. -/
def dumpLoop (lws : Lws) (header : Nat → Text) : List String → Nat → Text → Text → Text
  | [], _, _, parms => parms
  | name :: names, n, buf, parms =>
    if (header n).length = 0 then dumpLoop lws header names (n + 1) buf parms
    else
      let buf := lws.hdrCopy buf (header n)
      dumpLoop lws header names (n + 1) buf (if name = "Uri-Args:" then buf else parms)

/-- `NXTprotocol_parms` afterwards. -/
def dumpHandshakeInfo (lws : Lws) (q : Request) (parms : Text) : Text :=
  dumpLoop lws q.header tokenNames 0 q.stack parms

/-! ## Requests -/

/-- `protocols` are the names of the handlers that are registered. -/
def getNXTprotocol (protocols : List Text) (name : Text) : Option Text :=
  let name := match name with
    | '/' :: cs => cs
    | name => name
  if name = "NXTprotocol".toList then some name else protocols.find? (· == name)

/-- The arguments of `NXTprotocol_json_handler`. -/
structure HandlerCall where
  protocol : Text
  jsonstr : Text
deriving DecidableEq

/-- The handler that a request gets to. -/
def Request.handler (protocols : List Text) (q : Request) : Option Text :=
  if q.uri.length < 1 then none
  else if '/' ∈ q.uri.drop 1 then none
  else if (q.header wsiTokenPostUri).length ≠ 0 then none
  else getNXTprotocol protocols q.uri

/-- `LWS_CALLBACK_HTTP`: the buffer, and the call if there is one. -/
def callbackHttp (lws : Lws) (protocols : List Text) (parms : Text) (q : Request) : Text × Option HandlerCall :=
  let parms := dumpHandshakeInfo lws q parms
  (parms, (q.handler protocols).map fun protocol => { protocol := protocol, jsonstr := parms })

/-- `filter` is `LWS_CALLBACK_FILTER_PROTOCOL_CONNECTION` of one of the other protocols. -/
inductive Callback where
  | http (q : Request)
  | filter (q : Request)

def Callback.request : Callback → Request
  | .http q => q
  | .filter q => q

def step (lws : Lws) (protocols : List Text) (parms : Text) : Callback → Option Text
  | .http q => some (callbackHttp lws protocols parms q).1
  | .filter q => some (dumpHandshakeInfo lws q parms)

section
variable {lws : Lws} {protocols : List Text} {parms buf : Text} {header : Nat → Text} {q : Request}

/-! ## The buffer -/

theorem dumpLoop_cons_of_ne {name : String} {names : List String} {n : Nat} (h : name ≠ "Uri-Args:") :
    dumpLoop lws header (name :: names) n buf parms =
      dumpLoop lws header names (n + 1) (if (header n).length = 0 then buf else lws.hdrCopy buf (header n)) parms := by
  rw [dumpLoop]
  dsimp only
  rw [if_neg h]
  split <;> rfl

theorem dumpLoop_of_not_mem {names : List String} {n : Nat} (h : "Uri-Args:" ∉ names) :
    dumpLoop lws header names n buf parms = parms := by
  induction names generalizing n buf with
  | nil => rfl
  | cons name names ih =>
    rw [List.mem_cons, not_or] at h
    rw [dumpLoop_cons_of_ne (Ne.symm h.1)]
    exact ih h.2

theorem dumpLoop_append {front names : List String} {n : Nat} (hbuf : buf.length < 4096)
    (h : "Uri-Args:" ∉ front) : ∃ buf' : Text, buf'.length < 4096 ∧
      dumpLoop lws header (front ++ names) n buf parms = dumpLoop lws header names (n + front.length) buf' parms := by
  induction front generalizing n buf with
  | nil => exact ⟨buf, hbuf, rfl⟩
  | cons name front ih =>
    rw [List.mem_cons, not_or] at h
    rw [List.cons_append, dumpLoop_cons_of_ne (Ne.symm h.1), List.length_cons, Nat.add_comm front.length,
      ← Nat.add_assoc]
    refine ih ?_ h.2
    split
    · exact hbuf
    · exact lws.fits _ _ hbuf

theorem dumpHandshakeInfo_eq (lws : Lws) (q : Request) (parms : Text) : ∃ buf : Text, buf.length < 4096 ∧
    dumpHandshakeInfo lws q parms = if q.args = [] then parms else lws.hdrCopy buf q.args := by
  obtain ⟨buf, hbuf, heq⟩ := @dumpLoop_append lws parms q.stack q.header (tokenNames.take wsiTokenHttpUriArgs)
    (tokenNames.drop wsiTokenHttpUriArgs) 0 q.stack_lt (by decide)
  refine ⟨buf, hbuf, ?_⟩
  unfold dumpHandshakeInfo
  rw [← List.take_append_drop wsiTokenHttpUriArgs tokenNames, heq]
  show dumpLoop lws q.header ["Uri-Args:", "MuxURL"] wsiTokenHttpUriArgs buf parms = _
  unfold Request.args dumpLoop
  dsimp only
  rw [if_pos rfl]
  by_cases hargs : q.header wsiTokenHttpUriArgs = []
  · rw [if_pos hargs, if_pos (List.length_eq_zero_iff.mpr hargs)]
    exact dumpLoop_of_not_mem (by decide)
  · rw [if_neg hargs, if_neg fun hlen => hargs (List.length_eq_zero_iff.mp hlen)]
    exact dumpLoop_of_not_mem (by decide)

theorem dumpHandshakeInfo_of_lt (h : q.args.length < 4096) :
    dumpHandshakeInfo lws q parms = if q.args = [] then parms else q.args := by
  obtain ⟨buf, -, heq⟩ := dumpHandshakeInfo_eq lws q parms
  rw [heq, lws.copies buf q.args h]

theorem dumpHandshakeInfo_ne (h : 4096 ≤ q.args.length) : dumpHandshakeInfo lws q parms ≠ q.args := by
  obtain ⟨buf, hbuf, heq⟩ := dumpHandshakeInfo_eq lws q parms
  have hsome : q.args ≠ [] := by
    intro hnil
    rw [hnil] at h
    exact absurd h (by decide)
  have hfits := lws.fits buf q.args hbuf
  rw [heq, if_neg hsome]
  intro hsame
  rw [hsame] at hfits
  omega

theorem step_eq (e : Callback) : step lws protocols parms e = some (dumpHandshakeInfo lws e.request parms) := by
  cases e with
  | http q => rfl
  | filter q => rfl

/-- The arguments of the last request that has some. -/
def lastArgs (parms : Text) (es : List Callback) : Text :=
  es.foldl (fun parms e => if e.request.args = [] then parms else e.request.args) parms

/-- **The buffer holds the last arguments**, whoever sent them. -/
theorem run_parms {es : List Callback} (h : ∀ e ∈ es, e.request.args.length < 4096) :
    Run.run (step lws protocols) parms es = some (lastArgs parms es) := by
  induction es generalizing parms with
  | nil => rfl
  | cons e es ih =>
    obtain ⟨he, hes⟩ := List.forall_mem_cons.mp h
    rw [Run.run_cons, step_eq, Option.bind_some, ih hes, dumpHandshakeInfo_of_lt he]
    rfl

/-! ## What a handler gets -/

/-- A handler is called with the arguments of its own request. -/
def PassesOwn (lws : Lws) (protocols : List Text) (parms : Text) : Callback → Prop
  | .http q => ∀ call, (callbackHttp lws protocols parms q).2 = some call → call.jsonstr = q.args
  | .filter _ => True

/-- The request has arguments that fit, or there are none and none are left over. -/
def OwnArgs (protocols : List Text) (parms : Text) : Callback → Prop
  | .http q =>
    (q.handler protocols).isSome → (q.args ≠ [] ∧ q.args.length < 4096) ∨ (q.args = [] ∧ parms = [])
  | .filter _ => True

instance (protocols : List Text) (parms : Text) : ∀ e, Decidable (OwnArgs protocols parms e)
  | .http q => inferInstanceAs (Decidable ((q.handler protocols).isSome → _ ∨ _))
  | .filter _ => .isTrue trivial

theorem passesOwn_iff (e : Callback) : PassesOwn lws protocols parms e ↔ OwnArgs protocols parms e := by
  cases e with
  | filter q => exact Iff.rfl
  | http q =>
    unfold PassesOwn OwnArgs callbackHttp
    dsimp only
    cases hhandler : q.handler protocols with
    | none => simp
    | some protocol =>
      have hpasses : (∀ call, some (HandlerCall.mk protocol (dumpHandshakeInfo lws q parms)) = some call →
          call.jsonstr = q.args) ↔ dumpHandshakeInfo lws q parms = q.args := by
        constructor
        · exact fun h => h _ rfl
        · rintro h call hcall
          obtain rfl := Option.some.inj hcall
          exact h
      rw [Option.map_some, hpasses, Option.isSome_some, imp_iff_right rfl]
      by_cases hlt : q.args.length < 4096
      · rw [dumpHandshakeInfo_of_lt hlt]
        by_cases hnil : q.args = []
        · simp [hnil]
        · simp [hnil, hlt]
      · have hnil : q.args ≠ [] := by
          intro hnil
          rw [hnil] at hlt
          exact hlt (by decide)
        simp [dumpHandshakeInfo_ne (Nat.le_of_not_lt hlt), hlt, hnil]

end

/-- **Each handler gets the arguments of its own request** exactly when no request gets to one without
arguments while some are left in the buffer, or with too many. -/
theorem along_passesOwn_iff (lws : Lws) (protocols : List Text) (es : List Callback) :
    Run.Along (step lws protocols) (PassesOwn lws protocols) [] es ↔
      Run.Along (step lws protocols) (OwnArgs protocols) [] es :=
  ⟨Run.along_mono fun _ e => (passesOwn_iff e).mp, Run.along_mono fun _ e => (passesOwn_iff e).mpr⟩

/-- A request for a handler. -/
def requestOf (uri args : Text) : Request where
  uri := uri
  header n := if n = 0 then uri else if n = wsiTokenHttpUriArgs then args else []

/-- The second request repeats the command of the first one. -/
theorem not_forall_passesOwn : ¬∀ (lws : Lws) (protocols : List Text) (es : List Callback),
    Run.Along (step lws protocols) (PassesOwn lws protocols) [] es := by
  intro h
  have hpasses := h lws ["multigateway".toList]
    [.http (requestOf "/multigateway".toList "\x7b\"requestType\":\"redeem\"\x7d".toList),
      .http (requestOf "/multigateway".toList [])]
  have hown := (hpasses.2 _ rfl).1 _ rfl
  exact absurd hown (by decide)

end NXTServices.Web
