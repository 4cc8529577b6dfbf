import NXTServices.Ledger
import NXTServices.Lib.Records
import Mathlib.Data.Nat.Digits.Defs

/-!
# The dispatch of events: `NXTprotocol.c`

* `NXTProtocol`, `registerNXTHandler` : the protocols and their list, over any type `H` of handlers;
* `NXTAMhdr`, `amHdr` : the header in the first 16 bytes of an arbitrary message;
* `claims` : the tests of an event for a protocol;
* `processNXTEvent` : the loop over the protocols, with the calls it makes;
* `calls_eq_records` : the calls are the running maxima of the priority;
* `called_once_iff` : when the handler of highest priority is the only one called.

A handler of type `H` is a function with its `handlerdata`.
-/

namespace NXTServices.Protocol

/-! ## Headers -/

/-- A buffer of bytes, from its start on. -/
abbrev Buf := Nat → BitVec 8

/-- `struct NXT_AMhdr`. -/
structure NXTAMhdr where
  sig : BitVec 32
  size : BitVec 32
  nxt64bits : BitVec 64
deriving DecidableEq

/-- The `n` bytes from `i` on, the least one first. -/
def bytesAt (buf : Buf) (i n : Nat) : List Nat := (List.range n).map fun k => (buf (i + k)).toNat

def amHdr (buf : Buf) : NXTAMhdr where
  sig := BitVec.ofNat 32 (Nat.ofDigits 256 (bytesAt buf 0 4))
  size := BitVec.ofNat 32 (Nat.ofDigits 256 (bytesAt buf 4 4))
  nxt64bits := BitVec.ofNat 64 (Nat.ofDigits 256 (bytesAt buf 8 8))

/-! ## Protocols and events -/

structure NXTProtocol (H : Type*) where
  name : Text
  type : Int
  subtype : Int
  priority : Int
  amSigfilter : BitVec 32
  assetlist : Option (List Text)
  whitelist : Option (List Text)
  handler : H

/-- The arguments of `process_NXT_event`. -/
structure NXTEvent where
  histmode : Int
  txid : Text
  type : Int
  subtype : Int
  am : Option Buf
  sender : Text
  receiver : Text
  assetid : Option Text
  assetoshis : Int
  comment : Option Text
  json : Json

/-- `struct NXT_protocol_parms`. -/
structure NXTProtocolParms where
  argjson : Option Json := none
  mode : Int
  type : Int := 0
  subtype : Int := 0
  priority : Int := 0
  histflag : Int := 0
  txid : Text := []
  sender : Text := []
  receiver : Text := []
  amptr : Option Buf := none
  assetid : Option Text := none
  comment : Option Text := none
  assetoshis : Int := 0

variable {H : Type*}

/-- The handlers, and the calls of their `NXTPROTOCOL_INIT`. -/
structure Registry (H : Type*) where
  handlers : List (NXTProtocol H) := []
  calls : List (H × NXTProtocolParms) := []

/-- The copy of the protocol, whose name is a buffer of 64 bytes. -/
def NXTProtocol.copy (p : NXTProtocol H) : NXTProtocol H := { p with name := p.name.take 64 }

/-- There is room for 1000. -/
def registerNXTHandler (r : Registry H) (p : NXTProtocol H) : Registry H :=
  if r.handlers.length < 1000 then
    { handlers := r.handlers ++ [p.copy]
      calls := r.calls ++ [(p.handler, { mode := -1 })] }
  else r

/-- `-1` for a null pointer, `0` when it is found and `1` otherwise; a list ends at an empty text. -/
def listcmp (list : Option (List Text)) (str : Option Text) : Int :=
  match list, str with
  | some list, some str => if str ∈ list.takeWhile (· ≠ []) then 0 else 1
  | _, _ => -1

/-- Is `cmp_nxt64bits` zero? -/
def cmpNxt64bits (str : Text) (nxt64bits : BitVec 64) : Bool :=
  nxt64bits = 0 ∧ str = [] ∨ str = expandNxt64bits nxt64bits

/-! ## The loop -/

/-- Does the event get past the tests of the protocol? Type, subtype and the asset list are for events
without a message, the signature and the sender for those with one. -/
def claims (ev : NXTEvent) (p : NXTProtocol H) : Bool :=
  match ev.am with
  | some buf =>
    (p.amSigfilter = 0 ∨ p.amSigfilter = (amHdr buf).sig) ∧
      (ev.sender = genesisAcct ∨ ev.receiver = genesisAcct ∨ p.whitelist = none ∨
        listcmp p.whitelist (some ev.sender) = 0 ∨ cmpNxt64bits ev.sender (amHdr buf).nxt64bits)
  | none =>
    ((p.type < 0 ∨ p.type = ev.type) ∧ (p.subtype < 0 ∨ p.subtype = ev.subtype)) ∧
      ¬ (p.assetlist ≠ none ∧ ev.assetid ≠ none ∧ listcmp p.assetlist ev.assetid ≠ 0)

/-- What a handler is called with. -/
def parms (ev : NXTEvent) (p : NXTProtocol H) : NXTProtocolParms :=
  let common : NXTProtocolParms :=
    { argjson := some ev.json
      mode := 3
      type := ev.type.bmod (2 ^ 32)
      subtype := ev.subtype.bmod (2 ^ 32)
      priority := p.priority
      histflag := ev.histmode
      txid := ev.txid
      sender := ev.sender
      receiver := ev.receiver }
  match ev.am with
  | some buf => { common with mode := 2, amptr := some buf }
  | none => { common with assetid := ev.assetid, assetoshis := ev.assetoshis, comment := ev.comment }

def call (ev : NXTEvent) (p : NXTProtocol H) : H × NXTProtocolParms := (p.handler, parms ev p)

structure Dispatch (H : Type*) where
  count : Nat := 0
  highestPriority : Int := -1
  calls : List (H × NXTProtocolParms) := []

/-- The body of the loop. -/
def dispatch (ev : NXTEvent) (d : Dispatch H) (p : NXTProtocol H) : Dispatch H :=
  if claims ev p then
    if d.highestPriority < p.priority then
      { count := 1, highestPriority := p.priority, calls := d.calls ++ [call ev p] }
    else if p.priority = d.highestPriority then { d with count := d.count + 1 }
    else d
  else d

/-- Has a protocol claimed the event, and the calls. The call after the loop is under `if ( 0 && ...`. -/
def processNXTEvent (handlers : List (NXTProtocol H)) (ev : NXTEvent) : Bool × List (H × NXTProtocolParms) :=
  let d := handlers.foldl (dispatch ev) {}
  (d.count ≠ 0, d.calls)

theorem handlers_foldl_registerNXTHandler (ps : List (NXTProtocol H)) (h : ps.length ≤ 1000) :
    (ps.foldl registerNXTHandler {}).handlers = ps.map NXTProtocol.copy := by
  induction ps using List.reverseRecOn with
  | nil => rfl
  | append_singleton ps p ih =>
    rw [List.length_append, List.length_singleton] at h
    have hps := ih (by omega)
    have hroom : (ps.foldl registerNXTHandler {}).handlers.length < 1000 := by
      rw [hps, List.length_map]
      omega
    rw [List.foldl_append, List.foldl_cons, List.foldl_nil, registerNXTHandler, if_pos hroom, hps, List.map_append]
    rfl

/-! ## What is called -/

section
variable {handlers : List (NXTProtocol H)} {ev : NXTEvent}

theorem foldl_dispatch_calls (d : Dispatch H) :
    (handlers.foldl (dispatch ev) d).calls = d.calls ++
      (Records.records NXTProtocol.priority d.highestPriority (handlers.filter (claims ev))).map (call ev) := by
  induction handlers generalizing d with
  | nil => simp
  | cons p handlers ih =>
    rw [List.foldl_cons, ih]
    by_cases hp : claims ev p = true
    · rw [List.filter_cons_of_pos hp]
      by_cases hlt : d.highestPriority < p.priority
      · rw [Records.records_cons_of_lt hlt]
        simp [dispatch, hp, hlt]
      · rw [Records.records_cons_of_le (not_lt.mp hlt)]
        simp only [dispatch, hp, hlt, if_true, if_false]
        split <;> rfl
    · rw [List.filter_cons_of_neg hp]
      simp [dispatch, hp]

/-- **The calls** are those of the running maxima. -/
theorem calls_eq_records (handlers : List (NXTProtocol H)) (ev : NXTEvent) :
    (processNXTEvent handlers ev).2 =
      (Records.records NXTProtocol.priority (-1) (handlers.filter (claims ev))).map (call ev) := by
  show (handlers.foldl (dispatch ev) {}).calls = _
  rw [foldl_dispatch_calls, List.nil_append]

theorem calls_pairwise (handlers : List (NXTProtocol H)) (ev : NXTEvent) :
    (processNXTEvent handlers ev).2.Pairwise fun c d => c.2.priority < d.2.priority := by
  have hparms (p : NXTProtocol H) : (call ev p).2.priority = p.priority := by
    unfold call parms
    split <;> rfl
  rw [calls_eq_records, List.pairwise_map]
  apply (Records.records_pairwise _ _ _).imp
  intro p q h
  rw [hparms, hparms]
  exact h

theorem last_call_highest {c : H × NXTProtocolParms} (h : (processNXTEvent handlers ev).2.getLast? = some c) :
    ∃ top ∈ handlers, claims ev top ∧ c = call ev top ∧ ∀ p ∈ handlers, claims ev p → p.priority ≤ top.priority := by
  rw [calls_eq_records, List.getLast?_map] at h
  obtain ⟨top, htop, rfl⟩ := Option.map_eq_some_iff.mp h
  obtain ⟨hmem, hclaims⟩ := List.mem_filter.mp ((Records.records_sublist _ _ _).subset (List.mem_of_getLast? htop))
  refine ⟨top, hmem, hclaims, rfl, fun p hp hc => ?_⟩
  exact Records.le_of_records_getLast? htop p (List.mem_filter.mpr ⟨hp, hc⟩)

/-- **One handler is called, that of highest priority,** exactly when the first protocol that claims the
event has this priority. -/
theorem called_once_iff (handlers : List (NXTProtocol H)) (ev : NXTEvent) (hpos : ∀ p ∈ handlers, 0 ≤ p.priority)
    (hmatch : ∃ p ∈ handlers, claims ev p) :
    (∃ top ∈ handlers, claims ev top ∧ (∀ p ∈ handlers, claims ev p → p.priority ≤ top.priority) ∧
        (processNXTEvent handlers ev).2 = [call ev top]) ↔
      ∀ first, handlers.find? (claims ev) = some first → ∀ p ∈ handlers, claims ev p → p.priority ≤ first.priority := by
  have habove : ∀ p ∈ handlers.filter (claims ev), (-1 : Int) < p.priority := by
    intro p hp
    have := hpos p (List.mem_of_mem_filter hp)
    omega
  rw [calls_eq_records, ← List.head?_filter]
  constructor
  · rintro ⟨top, -, -, -, hcalls⟩ first hfirst
    obtain ⟨r, hr, -⟩ := List.map_eq_singleton_iff.mp hcalls
    obtain ⟨hhead, hmax⟩ := (Records.records_eq_singleton_iff habove).mp hr
    obtain rfl : first = r := Option.some.inj (hfirst.symm.trans hhead)
    exact fun p hp hc => hmax p (List.mem_filter.mpr ⟨hp, hc⟩)
  · intro h
    obtain ⟨p, hp, hc⟩ := hmatch
    cases hhead : (handlers.filter (claims ev)).head? with
    | none =>
      rw [List.head?_eq_none_iff, List.filter_eq_nil_iff] at hhead
      exact absurd hc (hhead p hp)
    | some top =>
      obtain ⟨htop, hclaims⟩ := List.mem_filter.mp (List.mem_of_head? hhead)
      refine ⟨top, htop, hclaims, h top hhead, ?_⟩
      rw [(Records.records_eq_singleton_iff habove).mpr ⟨hhead, fun p hp => ?_⟩]
      · rfl
      · obtain ⟨hp, hc⟩ := List.mem_filter.mp hp
        exact h top hhead p hp hc

end

/-- Protocols without a filter, of these priorities. -/
def wildcards (priorities : List Int) : List (NXTProtocol Int) := priorities.map fun priority =>
  { name := []
    type := -1
    subtype := -1
    priority := priority
    amSigfilter := 0#32
    assetlist := none
    whitelist := none
    handler := priority }

/-- An event without a message. -/
def plainEvent : NXTEvent where
  histmode := 0
  txid := "7".toList
  type := 0
  subtype := 0
  am := none
  sender := "1".toList
  receiver := "2".toList
  assetid := none
  assetoshis := 0
  comment := none
  json := .null

theorem called_once_iff_wildcards :
    (∃ top ∈ wildcards [2, 1], claims plainEvent top ∧
        (∀ p ∈ wildcards [2, 1], claims plainEvent p → p.priority ≤ top.priority) ∧
        (processNXTEvent (wildcards [2, 1]) plainEvent).2 = [call plainEvent top]) ↔
      ∀ first, (wildcards [2, 1]).find? (claims plainEvent) = some first →
        ∀ p ∈ wildcards [2, 1], claims plainEvent p → p.priority ≤ first.priority :=
  called_once_iff _ _ (by simp [wildcards]) ⟨_, List.mem_cons_self, by decide⟩

/-- Registered in the other order, both are called. -/
theorem not_forall_called_once :
    ¬ ∀ (handlers : List (NXTProtocol Int)) (ev : NXTEvent), (handlers.map NXTProtocol.priority).Nodup →
      (∀ p ∈ handlers, 0 ≤ p.priority) → (∃ p ∈ handlers, claims ev p) →
      ∃ top ∈ handlers, claims ev top ∧ (∀ p ∈ handlers, claims ev p → p.priority ≤ top.priority) ∧
        (processNXTEvent handlers ev).2 = [call ev top] := by
  intro h
  obtain ⟨top, -, -, -, hcalls⟩ := h (wildcards [1, 2]) plainEvent (by decide) (by simp [wildcards])
    ⟨_, List.mem_cons_self, by decide⟩
  have htwo : (processNXTEvent (wildcards [1, 2]) plainEvent).2.length = 2 := by decide
  rw [hcalls] at htwo
  cases htwo

end NXTServices.Protocol
