import NXTServices.Lib.Upsert
import NXTServices.Serverloop

/-!
# The table of handlers: `register_variant_handler` of `utils/NXTsock.h`

* `HandlerInfo` : `struct handler_info`, with any type of handlers; a whitelist has a first entry;
* `registerVariantHandler`, `findHandler`, `calledHandler` : the table of 100 slots and its readers;
* `History` : the table with the slots written and the registrations that succeeded;
* `LastWriteWins` : a map of 100 pairs at most, each with its latest registration;
* `Uniform` : 100 pairs at most, and a pair never comes with other sizes or another whitelist;
* `lastWriteWins_iff` : the sequences of calls that keep the map are these.
-/

namespace NXTServices.Registry
open Upsert (rows upsert mergeAll)

/-! ## The table -/

structure HandlerInfo (H : Type) where
  variantHandler : H
  variant : Int
  funcid : Int
  argsize : Int
  retsize : Int
  whitelist : Option (List Text)
  whitelist_ne : whitelist ≠ some [] := by decide
deriving DecidableEq

namespace HandlerInfo
variable {H : Type}

def pair (info : HandlerInfo H) : Int × Int := (info.variant, info.funcid)

/-- What a registration of a pair that is there does to its slot. -/
def overwrite (info new : HandlerInfo H) : HandlerInfo H := { info with variantHandler := new.variantHandler }

@[simp] theorem pair_overwrite (info new : HandlerInfo H) : (info.overwrite new).pair = info.pair := rfl

/-- The sizes and the whitelist, which are not overwritten. -/
def rest (info : HandlerInfo H) : Int × Int × Option (List Text) := (info.argsize, info.retsize, info.whitelist)

@[simp] theorem rest_overwrite (info new : HandlerInfo H) : (info.overwrite new).rest = info.rest := rfl

theorem ext_of_pair_rest {info info' : HandlerInfo H} (hhandler : info.variantHandler = info'.variantHandler)
    (hpair : info.pair = info'.pair) (hrest : info.rest = info'.rest) : info = info' := by
  cases info
  cases info'
  cases hhandler
  cases hpair
  cases hrest
  rfl

end HandlerInfo

/-- `sizeof(Handlers)/sizeof(*Handlers)`. -/
def maxHandlers : Nat := 100

section
variable {H : Type}

/-- The loop from slot `i` on: the slot that is written, and the slots afterwards. -/
def registerFrom (new : HandlerInfo H) : Nat → List (HandlerInfo H) → Nat × List (HandlerInfo H)
  | i, [] => (i, [new])
  | i, info :: infos =>
    if info.pair = new.pair then (i, info.overwrite new :: infos)
    else ((registerFrom new (i + 1) infos).1, info :: (registerFrom new (i + 1) infos).2)

/-- The result, the slot that is written, and the first `Numhandlers` slots. A slot behind the last one is the memory
behind the array. -/
structure Registered (H : Type) where
  result : Int
  written : Option Nat
  handlers : List (HandlerInfo H)

def registerVariantHandler (handlers : List (HandlerInfo H)) (new : HandlerInfo H) : Registered H :=
  if maxHandlers < handlers.length then { result := -1, written := none, handlers := handlers }
  else
    let (i, handlers) := registerFrom new 0 handlers
    { result := i, written := some i, handlers := handlers }

/-- `none` is `-1`. -/
def findHandler (handlers : List (HandlerInfo H)) (variant funcid : Int) : Option Nat :=
  handlers.findIdx? fun info => info.pair = (variant, funcid)

/-- `Handlers[find_handler(variant, funcid)]`. -/
def slotOf (handlers : List (HandlerInfo H)) (variant funcid : Int) : Option (HandlerInfo H) :=
  (findHandler handlers variant funcid).bind fun i => handlers[i]?

/-- The handler that `process_client_packet` calls, if any. -/
def calledHandler (handlers : List (HandlerInfo H)) (variant funcid : Int) (clientip : Text) : Option H :=
  (slotOf handlers variant funcid).bind fun info =>
    if 0 ≤ Server.checkWhitelist info.whitelist clientip then some info.variantHandler else none

/-! ## Sequences of calls -/

/-- The table, the slots written so far and the registrations that succeeded. -/
structure History (H : Type) where
  handlers : List (HandlerInfo H) := []
  written : List Nat := []
  accepted : List (HandlerInfo H) := []

def History.register (h : History H) (new : HandlerInfo H) : History H :=
  let r := registerVariantHandler h.handlers new
  { handlers := r.handlers
    written := h.written ++ r.written.toList
    accepted := if 0 ≤ r.result then h.accepted ++ [new] else h.accepted }

/-- The calls of a program, from the empty table. -/
def register (calls : List (HandlerInfo H)) : History H := calls.foldl History.register {}

/-- The latest registration of the pair that succeeded. -/
def History.latest (h : History H) (variant funcid : Int) : Option (HandlerInfo H) :=
  h.accepted.reverse.find? fun info => info.pair = (variant, funcid)

/-- A map of at most 100 pairs, each with all of its latest registration. -/
structure LastWriteWins (h : History H) : Prop where
  written : ∀ i ∈ h.written, i < maxHandlers
  bounded : h.handlers.length ≤ maxHandlers
  unique : (h.handlers.map HandlerInfo.pair).Nodup
  found : ∀ variant funcid, slotOf h.handlers variant funcid = h.latest variant funcid
  called : ∀ variant funcid clientip, calledHandler h.handlers variant funcid clientip =
    (h.latest variant funcid).bind fun info =>
      if 0 ≤ Server.checkWhitelist info.whitelist clientip then some info.variantHandler else none

/-- The number of pairs in a sequence of calls. -/
def numPairs (calls : List (HandlerInfo H)) : Nat := (calls.map HandlerInfo.pair).dedup.length

/-- At most 100 pairs, and a pair always comes with the same sizes and whitelist. -/
structure Uniform (calls : List (HandlerInfo H)) : Prop where
  pairs : numPairs calls ≤ maxHandlers
  rest : ∀ info ∈ calls, ∀ info' ∈ calls, info.pair = info'.pair → info.rest = info'.rest

/-! ## One call -/

theorem registerFrom_snd (new : HandlerInfo H) (i : Nat) (handlers : List (HandlerInfo H)) :
    (registerFrom new i handlers).2 = upsert HandlerInfo.pair HandlerInfo.overwrite new handlers := by
  induction handlers generalizing i with
  | nil => rfl
  | cons info infos ih =>
    unfold registerFrom upsert
    split
    · rfl
    · rw [ih]

theorem registerFrom_fst (new : HandlerInfo H) (i : Nat) (handlers : List (HandlerInfo H)) :
    (registerFrom new i handlers).1 < i + (upsert HandlerInfo.pair HandlerInfo.overwrite new handlers).length := by
  induction handlers generalizing i with
  | nil => exact Nat.lt_succ_self i
  | cons info infos ih =>
    unfold registerFrom upsert
    split
    · exact Nat.lt_add_of_pos_right (Nat.zero_lt_succ _)
    · have hnext := ih (i + 1)
      rw [List.length_cons]
      dsimp only
      omega

theorem slotOf_eq (handlers : List (HandlerInfo H)) (variant funcid : Int) :
    slotOf handlers variant funcid = handlers.find? fun info => info.pair = (variant, funcid) :=
  List.find?_eq_bind_findIdx?_getElem?.symm

theorem History.register_spec {h : History H} (hle : h.handlers.length ≤ maxHandlers) (new : HandlerInfo H) :
    (h.register new).handlers = upsert HandlerInfo.pair HandlerInfo.overwrite new h.handlers ∧
      (∃ i < (h.register new).handlers.length, (h.register new).written = h.written ++ [i]) ∧
      (h.register new).accepted = h.accepted ++ [new] := by
  have hroom : ¬ maxHandlers < h.handlers.length := Nat.not_lt.mpr hle
  simp only [History.register, registerVariantHandler, if_neg hroom, registerFrom_snd]
  have hslot := registerFrom_fst new 0 h.handlers
  rw [Nat.zero_add] at hslot
  exact ⟨trivial, ⟨_, hslot, rfl⟩, if_pos (Int.natCast_nonneg _)⟩

/-! ## All calls -/

/-- Every call succeeds, and the table has one row for each pair. -/
structure Followed (calls : List (HandlerInfo H)) (h : History H) : Prop where
  handlers : h.handlers = rows HandlerInfo.pair HandlerInfo.overwrite calls
  written : ∀ i ∈ h.written, i < numPairs calls
  accepted : h.accepted = calls

theorem length_rows_eq (calls : List (HandlerInfo H)) :
    (rows HandlerInfo.pair HandlerInfo.overwrite calls).length = numPairs calls :=
  Upsert.length_rows HandlerInfo.pair_overwrite calls

theorem numPairs_le_concat (calls : List (HandlerInfo H)) (new : HandlerInfo H) :
    numPairs calls ≤ numPairs (calls ++ [new]) := by
  rw [← length_rows_eq, ← length_rows_eq, Upsert.rows_concat]
  exact Upsert.length_le_upsert fun info => info.pair_overwrite new

theorem register_concat (calls : List (HandlerInfo H)) (new : HandlerInfo H) :
    register (calls ++ [new]) = (register calls).register new := by
  rw [register, List.foldl_append]
  rfl

theorem Followed.concat {calls : List (HandlerInfo H)} {h : History H} (hf : Followed calls h)
    (hle : numPairs calls ≤ maxHandlers) (new : HandlerInfo H) : Followed (calls ++ [new]) (h.register new) := by
  have hlength : h.handlers.length ≤ maxHandlers := by rwa [hf.handlers, length_rows_eq]
  obtain ⟨hhandlers, ⟨i, hi, hwritten⟩, haccepted⟩ := History.register_spec hlength new
  have hrows : (h.register new).handlers = rows HandlerInfo.pair HandlerInfo.overwrite (calls ++ [new]) := by
    rw [hhandlers, hf.handlers, Upsert.rows_concat]
  refine ⟨hrows, ?_, by rw [haccepted, hf.accepted]⟩
  rw [hrows, length_rows_eq] at hi
  rw [hwritten]
  intro j hj
  rcases List.mem_append.mp hj with hj | hj
  · exact Nat.lt_of_lt_of_le (hf.written j hj) (numPairs_le_concat calls new)
  · exact List.mem_singleton.mp hj ▸ hi

theorem followed_register {calls : List (HandlerInfo H)} (hle : numPairs calls ≤ maxHandlers) :
    Followed calls (register calls) := by
  induction calls using List.reverseRecOn with
  | nil => exact ⟨rfl, List.forall_mem_nil _, rfl⟩
  | append_singleton calls new ih =>
    have hbefore := (numPairs_le_concat calls new).trans hle
    rw [register_concat]
    exact (ih hbefore).concat hbefore new

/-! ## The row of a pair -/

theorem foldl_overwrite (info : HandlerInfo H) (infos : List (HandlerInfo H)) :
    infos.foldl HandlerInfo.overwrite info = info.overwrite (infos.getLastD info) := by
  induction infos using List.reverseRecOn with
  | nil => rfl
  | append_singleton infos new ih =>
    rw [List.foldl_append, ih, List.getLastD_concat]
    rfl

theorem mergeAll_overwrite (infos : List (HandlerInfo H)) :
    mergeAll HandlerInfo.overwrite infos =
      infos.head?.bind fun first => infos.getLast?.map first.overwrite := by
  cases infos with
  | nil => rfl
  | cons info infos =>
    rw [mergeAll, foldl_overwrite, List.head?_cons, List.getLast?_cons, List.getLastD_eq_getLast?]
    rfl

theorem find?_reverse_eq {α : Type} (p : α → Bool) (l : List α) : l.reverse.find? p = (l.filter p).getLast? := by
  rw [← List.head?_filter, List.filter_reverse, List.head?_reverse]

theorem Followed.slotOf {calls : List (HandlerInfo H)} {h : History H} (hf : Followed calls h) (variant funcid : Int) :
    Registry.slotOf h.handlers variant funcid =
      (calls.find? fun info => info.pair = (variant, funcid)).bind fun first =>
        (h.latest variant funcid).map first.overwrite := by
  rw [slotOf_eq, hf.handlers, Upsert.find?_rows HandlerInfo.pair_overwrite, mergeAll_overwrite, List.head?_filter,
    History.latest, hf.accepted, find?_reverse_eq]

/-! ## Which sequences keep the map -/

theorem latest_mem {h : History H} {variant funcid : Int} {info : HandlerInfo H}
    (hlatest : h.latest variant funcid = some info) : info ∈ h.accepted ∧ info.pair = (variant, funcid) := by
  have hmem := List.mem_of_find?_eq_some hlatest
  have hpair := List.find?_some hlatest
  exact ⟨List.mem_reverse.mp hmem, of_decide_eq_true hpair⟩

theorem Uniform.slotOf {calls : List (HandlerInfo H)} (hu : Uniform calls) (variant funcid : Int) :
    Registry.slotOf (register calls).handlers variant funcid = (register calls).latest variant funcid := by
  have hf := followed_register hu.pairs
  rw [hf.slotOf]
  cases hlatest : (register calls).latest variant funcid with
  | none => exact Option.bind_eq_none_iff.mpr fun _ _ => rfl
  | some last =>
    obtain ⟨hlast, hpair⟩ := latest_mem hlatest
    rw [hf.accepted] at hlast
    obtain ⟨first, hfirst⟩ : ∃ first, calls.find? (fun info => info.pair = (variant, funcid)) = some first :=
      Option.isSome_iff_exists.mp (List.find?_isSome.mpr ⟨last, hlast, decide_eq_true hpair⟩)
    have hpair' := List.find?_some hfirst
    have hsame : first.pair = last.pair := (of_decide_eq_true hpair').trans hpair.symm
    have hrest := hu.rest first (List.mem_of_find?_eq_some hfirst) last hlast hsame
    rw [hfirst, Option.bind_some, Option.map_some]
    exact congrArg some (HandlerInfo.ext_of_pair_rest rfl hsame hrest)

theorem Uniform.lastWriteWins {calls : List (HandlerInfo H)} (hu : Uniform calls) : LastWriteWins (register calls) := by
  have hf := followed_register hu.pairs
  refine ⟨fun i hi => Nat.lt_of_lt_of_le (hf.written i hi) hu.pairs, ?_, ?_, hu.slotOf,
    fun variant funcid clientip => ?_⟩
  · rw [hf.handlers, length_rows_eq]
    exact hu.pairs
  · rw [hf.handlers]
    exact Upsert.nodup_rows HandlerInfo.pair_overwrite calls
  · rw [calledHandler, hu.slotOf]

theorem Uniform.of_append {calls calls' : List (HandlerInfo H)} (hu : Uniform (calls ++ calls')) : Uniform calls := by
  constructor
  · induction calls' using List.reverseRecOn with
    | nil => exact List.append_nil calls ▸ hu.pairs
    | append_singleton calls' new ih =>
      rw [← List.append_assoc] at hu
      exact ih ⟨(numPairs_le_concat _ new).trans hu.pairs, fun info hinfo info' hinfo' =>
        hu.rest info (List.mem_append_left _ hinfo) info' (List.mem_append_left _ hinfo')⟩
  · intro info hinfo info' hinfo'
    exact hu.rest info (List.mem_append_left _ hinfo) info' (List.mem_append_left _ hinfo')

theorem numPairs_le_of_bounded {calls : List (HandlerInfo H)}
    (h : ∀ pre, pre <+: calls → (register pre).handlers.length ≤ maxHandlers) : numPairs calls ≤ maxHandlers := by
  induction calls using List.reverseRecOn with
  | nil => exact Nat.zero_le _
  | append_singleton calls new ih =>
    have hbefore := ih fun pre hpre => h pre (hpre.trans (List.prefix_append _ _))
    have hlast := h _ (List.prefix_refl _)
    rwa [register_concat, ((followed_register hbefore).concat hbefore new).handlers, length_rows_eq] at hlast

theorem rest_eq_first {pre : List (HandlerInfo H)} {new : HandlerInfo H} (hle : numPairs (pre ++ [new]) ≤ maxHandlers)
    (h : LastWriteWins (register (pre ++ [new]))) :
    ∃ first, (pre ++ [new]).find? (fun info => info.pair = new.pair) = some first ∧ first.rest = new.rest := by
  have hf := followed_register hle
  have hlatest : (register (pre ++ [new])).latest new.variant new.funcid = some new := by
    rw [History.latest, hf.accepted, List.reverse_append]
    exact List.find?_cons_of_pos (decide_eq_true rfl)
  have hfound := h.found new.variant new.funcid
  rw [hf.slotOf, hlatest] at hfound
  obtain ⟨first, hfirst, heq⟩ := Option.bind_eq_some_iff.mp hfound
  refine ⟨first, hfirst, ?_⟩
  have hover : first.overwrite new = new := Option.some.inj heq
  rw [← first.rest_overwrite new, hover]

theorem Uniform.of_lastWriteWins {calls : List (HandlerInfo H)}
    (h : ∀ pre, pre <+: calls → LastWriteWins (register pre)) : Uniform calls := by
  have hpairs : numPairs calls ≤ maxHandlers := numPairs_le_of_bounded fun pre hpre => (h pre hpre).bounded
  have hfirst : ∀ info ∈ calls, ∃ first,
      calls.find? (fun other => other.pair = info.pair) = some first ∧ first.rest = info.rest := by
    intro info hinfo
    obtain ⟨pre, post, rfl⟩ := List.append_of_mem hinfo
    have hpre : pre ++ [info] <+: pre ++ info :: post := ⟨post, by simp⟩
    have hle : numPairs (pre ++ [info]) ≤ maxHandlers :=
      numPairs_le_of_bounded fun p hp => (h p (hp.trans hpre)).bounded
    obtain ⟨first, hfind, hrest⟩ := rest_eq_first hle (h _ hpre)
    refine ⟨first, ?_, hrest⟩
    rw [← List.singleton_append, ← List.append_assoc, List.find?_append, hfind]
    rfl
  refine ⟨hpairs, fun info hinfo info' hinfo' hpair => ?_⟩
  obtain ⟨first, hfind, hrest⟩ := hfirst info hinfo
  obtain ⟨first', hfind', hrest'⟩ := hfirst info' hinfo'
  rw [← hpair, hfind] at hfind'
  rw [← hrest, ← hrest', Option.some.inj hfind']

/-- **Which sequences of calls keep the bounded map with its last writes**, after each of them. -/
theorem lastWriteWins_iff (calls : List (HandlerInfo H)) :
    (∀ pre, pre <+: calls → LastWriteWins (register pre)) ↔ Uniform calls := by
  constructor
  · exact Uniform.of_lastWriteWins
  · rintro hu pre ⟨post, rfl⟩
    exact hu.of_append.lastWriteWins

end

/-- A handler that everybody may call, and then only `127.0.0.1`. -/
def restricted : List (HandlerInfo Unit) :=
  [{ variantHandler := (), variant := 1, funcid := 2, argsize := 16, retsize := 16, whitelist := none },
    { variantHandler := (), variant := 1, funcid := 2, argsize := 16, retsize := 16,
      whitelist := some ["127.0.0.1".toList] }]

/-- The second whitelist is not applied. -/
theorem not_forall_lastWriteWins : ¬ ∀ (H : Type) (calls pre : List (HandlerInfo H)), pre <+: calls →
    LastWriteWins (register pre) := by
  intro h
  have hcalled := (h Unit restricted restricted (List.prefix_refl _)).called 1 2 "10.0.0.1".toList
  exact absurd hcalled (by decide)

end NXTServices.Registry
