import Mathlib.Data.List.Perm.Basic
import Mathlib.Data.List.Basic

/-!
# `process_pingpong_queue` of `utils/jl777hash.h`, over ideal queues

* `QueueAddr` : the addresses that a pipeline's `destqueue` and `errorqueue` may hold;
* `Store` : the queues behind these addresses, the freed items and the memory of the action;
* `handle`, `drain`, `processPingpongQueue` : one item, one `while` loop, the two passes;
* `Delivered s homes t` : `t` is `s` after the action has run on the items of `homes` and each has
  gone to its place;
* `processPingpongQueue_conserved` : two passes end, and give every item one place.
-/

namespace NXTServices.Pingpong

/-- `&ppq->pingpong[iter]` of the pipeline itself, or a queue outside of it. -/
inductive QueueAddr (ι : Type) where
  | pingpong (iter : Bool)
  | other (queue : ι)
deriving DecidableEq

/-- `struct pingpong_queue`, less its name and its own two queues. `none` is a null pointer. The
action reads and writes the memory `σ`, and answers a code. -/
structure PingpongQueue (ι σ α : Type) where
  destqueue : Option (QueueAddr ι)
  errorqueue : Option (QueueAddr ι)
  action : σ → α → Int × σ

structure Store (ι σ α : Type) where
  queues : QueueAddr ι → List α
  freed : List α := []
  mem : σ
  /-- The items that the action has been called on. -/
  calls : List α := []

variable {ι σ α : Type}

section
variable [DecidableEq ι]

def queueEnqueue (s : Store ι σ α) (q : QueueAddr ι) (value : α) : Store ι σ α :=
  { s with queues := Function.update s.queues q (s.queues q ++ [value]) }

def free (s : Store ι σ α) (ptr : α) : Store ι σ α :=
  { s with freed := s.freed ++ [ptr] }

/-- `queue_enqueue` on `q`, or on the other inner queue when `q` is the pipeline's first one. -/
def enqueueRedirected (s : Store ι σ α) (iter : Bool) (q : QueueAddr ι) (ptr : α) : Store ι σ α :=
  if q = .pingpong false then queueEnqueue s (.pingpong !iter) ptr else queueEnqueue s q ptr

/-- The body of the `while` loop. A negative code with a null `errorqueue` is a crash. -/
def handle (ppq : PingpongQueue ι σ α) (iter : Bool) (s : Store ι σ α) (ptr : α) : Option (Store ι σ α) :=
  let retval := (ppq.action s.mem ptr).1
  let s := { s with mem := (ppq.action s.mem ptr).2, calls := s.calls ++ [ptr] }
  if retval = 0 then some (queueEnqueue s (.pingpong !iter) ptr)
  else if retval < 0 then ppq.errorqueue.map fun q => enqueueRedirected s iter q ptr
  else match ppq.destqueue with
    | some q => some (enqueueRedirected s iter q ptr)
    | none => some (free s ptr)

/-- `while ( (ptr= queue_dequeue(&ppq->pingpong[iter])) != 0 )`; `none` when `fuel` runs out. -/
def drain (ppq : PingpongQueue ι σ α) (iter : Bool) : Nat → Store ι σ α → Option (Store ι σ α)
  | 0, _ => none
  | fuel + 1, s =>
    match s.queues (.pingpong iter) with
    | [] => some s
    | ptr :: rest =>
      (handle ppq iter { s with queues := Function.update s.queues (.pingpong iter) rest } ptr).bind
        (drain ppq iter fuel)

def processPingpongQueue (ppq : PingpongQueue ι σ α) (fuel : Nat) (s : Store ι σ α) : Option (Store ι σ α) :=
  (drain ppq false fuel s).bind (drain ppq true fuel)

/-! ## Places

An item that the action has run on lies in a queue or has been freed. -/

/-- The items in a queue, or the freed ones (`none`). -/
def Store.held (s : Store ι σ α) : Option (QueueAddr ι) → List α
  | some q => s.queues q
  | none => s.freed

/-- The items of `homes` that are to be found at `p`. -/
def itemsAt (p : Option (QueueAddr ι)) (homes : List (α × Option (QueueAddr ι))) : List α :=
  (homes.filter fun h => h.2 = p).map Prod.fst

@[simp] theorem itemsAt_append (p : Option (QueueAddr ι)) (hs hs' : List (α × Option (QueueAddr ι))) :
    itemsAt p (hs ++ hs') = itemsAt p hs ++ itemsAt p hs' := by
  simp [itemsAt]

theorem itemsAt_eq_nil {p : Option (QueueAddr ι)} {homes : List (α × Option (QueueAddr ι))}
    (h : ∀ x ∈ homes, x.2 ≠ p) : itemsAt p homes = [] := by
  unfold itemsAt
  rw [List.filter_eq_nil_iff.mpr fun x hx => by simpa using h x hx]
  rfl

/-- The action has run on the items of `homes`, in order, and each lies where `homes` says. -/
structure Delivered (s : Store ι σ α) (homes : List (α × Option (QueueAddr ι))) (t : Store ι σ α) : Prop where
  held : ∀ p, t.held p = s.held p ++ itemsAt p homes
  calls : t.calls = s.calls ++ homes.map Prod.fst

theorem Delivered.refl (s : Store ι σ α) : Delivered s [] s :=
  ⟨fun p => by simp [itemsAt], by simp⟩

theorem Delivered.trans {s t u : Store ι σ α} {hs hs' : List (α × Option (QueueAddr ι))}
    (h : Delivered s hs t) (h' : Delivered t hs' u) : Delivered s (hs ++ hs') u where
  held p := by rw [h'.held, h.held, itemsAt_append, List.append_assoc]
  calls := by rw [h'.calls, h.calls, List.map_append, List.append_assoc]

/-- The places that a pass sends items to. -/
def Open (ppq : PingpongQueue ι σ α) (iter : Bool) (p : Option (QueueAddr ι)) : Prop :=
  p = some (.pingpong !iter) ∨
    p ≠ some (.pingpong false) ∧ (p = ppq.destqueue ∨ p ≠ none ∧ p = ppq.errorqueue)

/-- The queue pointers of a pipeline: its own first queue, a queue outside of it, or null where the
action never answers with the code in question (a null `destqueue` frees the item). -/
structure PingpongQueue.Wired (ppq : PingpongQueue ι σ α) : Prop where
  dest : ppq.destqueue ≠ some (.pingpong true)
  error : ppq.errorqueue ≠ some (.pingpong true)
  guarded : ppq.errorqueue = none → ∀ m ptr, 0 ≤ (ppq.action m ptr).1

variable {ppq : PingpongQueue ι σ α} {iter : Bool} {s t : Store ι σ α}

omit [DecidableEq ι] in
theorem Open.ne (hw : ppq.Wired) {p : Option (QueueAddr ι)} (h : Open ppq iter p) :
    p ≠ some (.pingpong iter) := by
  rcases h with rfl | ⟨hfirst, hp⟩
  · simp
  · cases iter with
    | false => exact hfirst
    | true =>
      rcases hp with rfl | ⟨-, rfl⟩
      · exact hw.dest
      · exact hw.error

theorem Store.held_update (s : Store ι σ α) (q : QueueAddr ι) (xs : List α) (p : Option (QueueAddr ι)) :
    Store.held { s with queues := Function.update s.queues q xs } p = if p = some q then xs else s.held p := by
  cases p with
  | none => rfl
  | some r =>
    show Function.update s.queues q xs r = _
    by_cases hr : r = q
    · subst hr
      simp
    · rw [Function.update_of_ne hr, if_neg (by simpa using hr)]
      rfl

theorem queueEnqueue_delivered (ptr : α) (q : QueueAddr ι) (m : σ) :
    Delivered s [(ptr, some q)] (queueEnqueue { s with mem := m, calls := s.calls ++ [ptr] } q ptr) := by
  refine ⟨fun p => ?_, rfl⟩
  unfold queueEnqueue
  rw [Store.held_update]
  by_cases hp : p = some q
  · subst hp
    simp [itemsAt, Store.held]
  · rw [if_neg hp, itemsAt_eq_nil (by simpa using Ne.symm hp), List.append_nil]
    cases p <;> rfl

theorem free_delivered (ptr : α) (m : σ) :
    Delivered s [(ptr, none)] (free { s with mem := m, calls := s.calls ++ [ptr] } ptr) := by
  refine ⟨fun p => ?_, rfl⟩
  cases p <;> simp [free, Store.held, itemsAt]

theorem enqueueRedirected_delivered (iter : Bool) (ptr : α) (q : QueueAddr ι) (m : σ)
    (hq : some q = ppq.destqueue ∨ some q = ppq.errorqueue) :
    ∃ p, Open ppq iter p ∧ Delivered s [(ptr, p)]
      (enqueueRedirected { s with mem := m, calls := s.calls ++ [ptr] } iter q ptr) := by
  unfold enqueueRedirected
  split_ifs with hown
  · exact ⟨_, .inl rfl, queueEnqueue_delivered ptr _ m⟩
  · refine ⟨some q, .inr ⟨by simpa using hown, ?_⟩, queueEnqueue_delivered ptr q m⟩
    exact hq.imp id fun he => ⟨by simp, he⟩

/-- **One call of the action**: the item goes to one open place. -/
theorem handle_delivered (hw : ppq.Wired) (iter : Bool) (ptr : α) :
    ∃ p t, Open ppq iter p ∧ handle ppq iter s ptr = some t ∧ Delivered s [(ptr, p)] t := by
  unfold handle
  by_cases hzero : (ppq.action s.mem ptr).1 = 0
  · exact ⟨_, _, .inl rfl, if_pos hzero, queueEnqueue_delivered ptr _ _⟩
  by_cases hneg : (ppq.action s.mem ptr).1 < 0
  · cases he : ppq.errorqueue with
    | none => exact absurd (hw.guarded he s.mem ptr) (by omega)
    | some q =>
      obtain ⟨p, hopen, hdel⟩ := enqueueRedirected_delivered (s := s) iter ptr q
        (ppq.action s.mem ptr).2 (.inr he.symm)
      exact ⟨p, _, hopen, by simp [hzero, hneg], hdel⟩
  · cases hd : ppq.destqueue with
    | none =>
      exact ⟨none, _, .inr ⟨by simp, .inl hd.symm⟩, by simp [hzero, hneg], free_delivered ptr (ppq.action s.mem ptr).2⟩
    | some q =>
      obtain ⟨p, hopen, hdel⟩ := enqueueRedirected_delivered (s := s) iter ptr q
        (ppq.action s.mem ptr).2 (.inl hd.symm)
      exact ⟨p, _, hopen, by simp [hzero, hneg], hdel⟩

/-! ## The pipelines of `init_coin_tables` -/

/-- The queues of one coin that the pipelines of `init_coin_tables` name. -/
inductive CoinQueue where
  | genaddr
  | errorqueue
  | withdraws
  | authenticate
  | sendcoin
deriving DecidableEq

def genreqs (action : σ → α → Int × σ) : PingpongQueue CoinQueue σ α where
  destqueue := some (.other .genaddr)
  errorqueue := some (.other .errorqueue)
  action := action

/-- `genaddr` names its own first queue as its `errorqueue`. -/
def genaddr (action : σ → α → Int × σ) : PingpongQueue CoinQueue σ α where
  destqueue := none
  errorqueue := some (.pingpong false)
  action := action

/-- A pipeline that frees what it has finished. -/
def finishing (action : σ → α → Int × σ) : PingpongQueue CoinQueue σ α where
  destqueue := none
  errorqueue := none
  action := action

/-- A pipeline that passes its items on to `dest`. -/
def passing (dest : CoinQueue) (action : σ → α → Int × σ) : PingpongQueue CoinQueue σ α where
  destqueue := some (.other dest)
  errorqueue := none
  action := action

def retrydepositconfirmed (action : σ → α → Int × σ) : PingpongQueue CoinQueue σ α := finishing action

def withdrawreqs (action : σ → α → Int × σ) : PingpongQueue CoinQueue σ α := passing .withdraws action

def withdraws (action : σ → α → Int × σ) : PingpongQueue CoinQueue σ α := passing .authenticate action

def authenticate (action : σ → α → Int × σ) : PingpongQueue CoinQueue σ α := passing .sendcoin action

def sendcoin (action : σ → α → Int × σ) : PingpongQueue CoinQueue σ α := finishing action

theorem genreqs_wired (action : σ → α → Int × σ) : (genreqs action).Wired :=
  ⟨by simp [genreqs], by simp [genreqs], by simp [genreqs]⟩

theorem genaddr_wired (action : σ → α → Int × σ) : (genaddr action).Wired :=
  ⟨by simp [genaddr], by simp [genaddr], by simp [genaddr]⟩

theorem finishing_wired {action : σ → α → Int × σ} (h : ∀ m ptr, 0 ≤ (action m ptr).1) :
    (finishing action).Wired :=
  ⟨by simp [finishing], by simp [finishing], fun _ => h⟩

theorem passing_wired {action : σ → α → Int × σ} (dest : CoinQueue) (h : ∀ m ptr, 0 ≤ (action m ptr).1) :
    (passing dest action).Wired :=
  ⟨by simp [passing], by simp [passing], fun _ => h⟩

/-! ## The two passes -/

def Store.clear (s : Store ι σ α) (q : QueueAddr ι) : Store ι σ α :=
  { s with queues := Function.update s.queues q [] }

theorem Delivered.clear {homes : List (α × Option (QueueAddr ι))} {q : QueueAddr ι} (h : Delivered s homes t)
    (hq : ∀ x ∈ homes, x.2 ≠ some q) : Delivered (s.clear q) homes (t.clear q) where
  held p := by
    unfold Store.clear
    rw [Store.held_update, Store.held_update, h.held]
    by_cases hp : p = some q
    · subst hp
      simp [itemsAt_eq_nil hq]
    · rw [if_neg hp, if_neg hp]
  calls := h.calls

/-- **One pass**, by induction on the items it drains. -/
theorem drain_delivered (hw : ppq.Wired) (iter : Bool) :
    ∀ (xs : List α) (s : Store ι σ α), s.queues (.pingpong iter) = xs →
      ∃ homes t, (∀ fuel, xs.length < fuel → drain ppq iter fuel s = some t) ∧ homes.map Prod.fst = xs ∧
        (∀ h ∈ homes, Open ppq iter h.2) ∧ Delivered (s.clear (.pingpong iter)) homes t := by
  intro xs
  induction xs with
  | nil =>
    intro s hs
    refine ⟨[], s, fun fuel hfuel => ?_, rfl, by simp, ?_⟩
    · obtain ⟨n, rfl⟩ := Nat.exists_eq_succ_of_ne_zero (Nat.ne_of_gt hfuel)
      simp only [drain, hs]
    · have hclear : s.clear (.pingpong iter) = s := by
        unfold Store.clear
        rw [← hs, Function.update_eq_self]
      rw [hclear]
      exact Delivered.refl s
  | cons ptr rest ih =>
    intro s hs
    obtain ⟨p, mid, hopen, hmid, hone⟩ := handle_delivered
      (s := { s with queues := Function.update s.queues (.pingpong iter) rest }) hw iter ptr
    have hmidq : mid.queues (.pingpong iter) = rest := by
      have := hone.held (some (.pingpong iter))
      rw [Store.held_update, if_pos rfl, itemsAt_eq_nil (by simpa using hopen.ne hw), List.append_nil] at this
      exact this
    obtain ⟨homes, t, hrun, hfst, hplaces, hrest⟩ := ih mid hmidq
    have hhead : Delivered (s.clear (.pingpong iter)) [(ptr, p)] (mid.clear (.pingpong iter)) := by
      have := hone.clear (q := .pingpong iter) (by simpa using hopen.ne hw)
      simpa [Store.clear] using this
    refine ⟨(ptr, p) :: homes, t, fun fuel hfuel => ?_, by simp [hfst], ?_, hhead.trans hrest⟩
    · obtain ⟨n, rfl⟩ := Nat.exists_eq_succ_of_ne_zero (Nat.ne_of_gt (Nat.zero_lt_of_lt hfuel))
      have hlen : rest.length < n := by simpa using hfuel
      simp only [drain, hs, hmid, Option.bind_some, hrun n hlen]
    · intro x hx
      rcases List.mem_cons.mp hx with rfl | hx
      · exact hopen
      · exact hplaces x hx

/-- The items waiting in the pipeline's own queues. -/
def Store.pending (s : Store ι σ α) : List α :=
  s.queues (.pingpong false) ++ s.queues (.pingpong true)

/-- The items of the first pass that the second does not meet again. -/
def settled (homes : List (α × Option (QueueAddr ι))) : List (α × Option (QueueAddr ι)) :=
  homes.filter fun h => ¬ h.2 = some (.pingpong true)

theorem itemsAt_settled {p : Option (QueueAddr ι)} (hp : p ≠ some (.pingpong true))
    (homes : List (α × Option (QueueAddr ι))) : itemsAt p (settled homes) = itemsAt p homes := by
  unfold itemsAt settled
  rw [List.filter_filter]
  congr 1
  apply List.filter_congr
  intro h _
  by_cases heq : h.2 = p
  · simp [heq, hp]
  · simp [heq]

theorem settled_perm (homes : List (α × Option (QueueAddr ι))) :
    ((settled homes).map Prod.fst ++ itemsAt (some (.pingpong true)) homes).Perm (homes.map Prod.fst) := by
  have h := List.filter_append_perm (fun h : α × Option (QueueAddr ι) => h.2 = some (.pingpong true)) homes
  have hmap := (List.perm_append_comm.trans h).map Prod.fst
  rw [List.map_append] at hmap
  simpa [settled, itemsAt] using hmap

/-- What a call of `process_pingpong_queue` owes the items waiting in the pipeline: `homes` gives each
one place, namely the pipeline's first queue, its `destqueue` (null: freed) or its `errorqueue`; the
queues and the freed items hold what they held and what has come to them; the action has run once on
each item and once more on those of `again`. -/
structure Conserved (ppq : PingpongQueue ι σ α) (s t : Store ι σ α) (homes : List (α × Option (QueueAddr ι)))
    (again : List α) : Prop where
  drained : t.queues (.pingpong true) = []
  calls : t.calls = s.calls ++ (s.pending ++ again)
  again : again.Sublist (s.queues (.pingpong false))
  all : (homes.map Prod.fst).Perm s.pending
  place : ∀ h ∈ homes, h.2 = some (.pingpong false) ∨ h.2 = ppq.destqueue ∨ h.2 ≠ none ∧ h.2 = ppq.errorqueue
  first : t.queues (.pingpong false) = itemsAt (some (.pingpong false)) homes
  others : ∀ q, t.queues (.other q) = s.queues (.other q) ++ itemsAt (some (.other q)) homes
  freed : t.freed = s.freed ++ itemsAt none homes

/-- **Two passes end and keep every item.** -/
theorem processPingpongQueue_conserved (ppq : PingpongQueue ι σ α) (hw : ppq.Wired) (s : Store ι σ α) :
    ∃ t homes again, (∃ n, ∀ fuel, n ≤ fuel → processPingpongQueue ppq fuel s = some t) ∧
      Conserved ppq s t homes again := by
  obtain ⟨hs₁, mid, hrun₁, hfst₁, hopen₁, hdel₁⟩ := drain_delivered hw false _ s rfl
  obtain ⟨hs₂, t, hrun₂, hfst₂, hopen₂, hdel₂⟩ := drain_delivered hw true _ mid rfl
  have hmid : mid.queues (.pingpong true) = s.queues (.pingpong true) ++ itemsAt (some (.pingpong true)) hs₁ := by
    have := hdel₁.held (some (.pingpong true))
    rwa [Store.clear, Store.held_update, if_neg (by simp)] at this
  have hheld : ∀ p, p ≠ some (.pingpong true) → t.held p =
      (s.clear (.pingpong false)).held p ++ itemsAt p (settled hs₁ ++ hs₂) := by
    intro p hp
    rw [hdel₂.held, Store.clear, Store.held_update, if_neg hp, hdel₁.held, itemsAt_append, itemsAt_settled hp,
      List.append_assoc]
  have hends : ∀ fuel, (s.queues (.pingpong false)).length + (mid.queues (.pingpong true)).length + 1 ≤ fuel →
      processPingpongQueue ppq fuel s = some t := by
    intro fuel hfuel
    unfold processPingpongQueue
    rw [hrun₁ fuel (by omega)]
    exact hrun₂ fuel (by omega)
  refine ⟨t, settled hs₁ ++ hs₂, itemsAt (some (.pingpong true)) hs₁, ⟨_, hends⟩, ?_, ?_, ?_, ?_, ?_, ?_, ?_, ?_⟩
  · have := hdel₂.held (some (.pingpong true))
    rwa [Store.clear, Store.held_update, if_pos rfl, itemsAt_eq_nil fun h hh => (hopen₂ h hh).ne hw] at this
  · rw [hdel₂.calls, hfst₂, hmid]
    show mid.calls ++ _ = _
    rw [hdel₁.calls, hfst₁]
    simp [Store.clear, Store.pending]
  · rw [← hfst₁]
    exact List.filter_sublist.map Prod.fst
  · calc ((settled hs₁ ++ hs₂).map Prod.fst)
        = (settled hs₁).map Prod.fst ++ (s.queues (.pingpong true) ++ itemsAt (some (.pingpong true)) hs₁) := by
          rw [List.map_append, hfst₂, hmid]
      List.Perm _ ((settled hs₁).map Prod.fst ++ (itemsAt (some (.pingpong true)) hs₁ ++ s.queues (.pingpong true))) :=
          List.perm_append_comm.append_left _
      List.Perm _ s.pending := by
          rw [← List.append_assoc, Store.pending, ← hfst₁]
          exact (settled_perm hs₁).append_right _
  · intro h hh
    rcases List.mem_append.mp hh with hh | hh
    · obtain ⟨hmem, hne⟩ := List.mem_filter.mp hh
      rcases hopen₁ h hmem with heq | ⟨-, hp⟩
      · simp [heq] at hne
      · exact .inr hp
    · rcases hopen₂ h hh with heq | ⟨-, hp⟩
      · exact .inl heq
      · exact .inr hp
  · simpa [Store.held, Store.clear] using hheld (some (.pingpong false)) (by simp)
  · intro q
    simpa [Store.held, Store.clear] using hheld (some (.other q)) (by simp)
  · simpa [Store.held, Store.clear] using hheld none (by simp)

/-- Two deposit address requests, of which the first is refused once. -/
def someRequests : Store CoinQueue Nat Nat where
  queues
    | .pingpong false => [5, 6]
    | _ => []
  mem := 0

/-- The action of the sample: code `-1` on its first call, then `1`. -/
def refuseFirst (m : Nat) (_ : Nat) : Int × Nat := (if m = 0 then -1 else 1, m + 1)

theorem genaddr_conserved :
    ∃ t homes again, (∃ n, ∀ fuel, n ≤ fuel →
        processPingpongQueue (genaddr refuseFirst) fuel someRequests = some t) ∧
      Conserved (genaddr refuseFirst) someRequests t homes again :=
  processPingpongQueue_conserved (genaddr refuseFirst) (genaddr_wired refuseFirst) someRequests

example : (processPingpongQueue (genaddr refuseFirst) 4 someRequests).map (fun t => (t.calls, t.freed)) =
    some ([5, 6, 5], [6, 5]) := by decide

end
end NXTServices.Pingpong
