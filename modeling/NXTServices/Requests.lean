import NXTServices.Hashtable
import NXTServices.Lib.Run
import NXTServices.Queue

/-!
# Requests to the table server: `MTadd_hashtable`, `MTsearch_hashtable`, `process_hashtablequeues`

* `Request`, `respond` : what a `hashpacket` asks for, and how it is answered;
* `Client`, `Node`, `Event`, `step` : the clients between their steps, the flag, the two queues and the
  server, one atomic step after another;
* `Separate` : no client reads the flag while another has read it and not yet set it;
* `Kept` : the pending request is the only one, its queue answers it next, and every answer is the one
  to the client's own request;
* `requests_kept` : a run of separate steps keeps every request.
-/

namespace NXTServices.Requests
open Hashtable Queue

/-- `funcid` and `key` of a packet. -/
inductive Request where
  | add (key : Text)
  | search (key : Text)
deriving DecidableEq

/-- The index into `hashtable_queue`. -/
def Request.queue : Request → Bool
  | .add _ => true
  | .search _ => false

/-- `result` with `*createdflagp`, or `hashval`. -/
inductive Answer where
  | result (ptr : Option Entry) (createdflag : Nat)
  | hashval (ind : Option Nat)
deriving DecidableEq

/-- The answer to a request, and the table after it. -/
def respond (hp : Hashtable) : Request → Answer × Hashtable
  | .add key => (.result (addHashtable hp key).result (addHashtable hp key).createdflag, (addHashtable hp key).hp)
  | .search key => (.hashval (searchHashtable hp key), hp)

/-- Where a client stands: it has seen `hashprocessing == 0`, has set it, has enqueued its packet, the
packet's `doneflag` is set, the client has seen that. -/
inductive Client where
  | idle
  | seen (request : Request)
  | entered (request : Request)
  | queued (request : Request)
  | done (request : Request) (answer : Answer)
  | finished (request : Request) (answer : Answer)
deriving DecidableEq

/-- `queues` holds the clients whose packets wait, and `iter` the queue that the server looks at;
`served` says which table each request has met. -/
structure Node (ι : Type) where
  hp : Hashtable
  hashprocessing : Nat := 0
  queues : Bool → Trace ι := fun _ => {}
  iter : Bool := false
  clients : ι → Client := fun _ => .idle
  served : List (ι × Request × Hashtable) := []
  returned : List (ι × Request × Answer) := []

inductive Event (ι : Type) where
  | see (i : ι) (request : Request)
  | set (i : ι)
  | enqueue (i : ι)
  | wait (i : ι)
  | clear (i : ι)
  | serve

section
variable {ι : Type} [DecidableEq ι]

def Node.move (s : Node ι) (i : ι) (c : Client) : Node ι := { s with clients := Function.update s.clients i c }

/-- `queue_dequeue` on the queue that the server looks at. -/
def Node.dequeue (s : Node ι) : Node ι :=
  { s with queues := Function.update s.queues s.iter ((s.queues s.iter).step .dequeue) }

/-- The client's packet is answered. -/
def Node.answer (s : Node ι) (i : ι) (request : Request) : Node ι :=
  { s.move i (.done request (respond s.hp request).1) with
    hp := (respond s.hp request).2
    served := s.served ++ [(i, request, s.hp)] }

/-- One round of the server's loop over the queue it looks at. -/
def serveStep (s : Node ι) : Option (Node ι) :=
  match (queueDequeue (s.queues s.iter).queue).1 with
  | none => some { s.dequeue with iter := !s.iter }
  | some i =>
    match s.clients i with
    | .queued request => some (s.dequeue.answer i request)
    | _ => none

def step (s : Node ι) : Event ι → Option (Node ι)
  | .see i request =>
    match s.clients i with
    | .idle => if s.hashprocessing = 0 then some (s.move i (.seen request)) else none
    | _ => none
  | .set i =>
    match s.clients i with
    | .seen request => some { s.move i (.entered request) with hashprocessing := 1 }
    | _ => none
  | .enqueue i =>
    match s.clients i with
    | .entered request =>
      some { s.move i (.queued request) with
        queues := Function.update s.queues request.queue ((s.queues request.queue).step (.enqueue i)) }
    | _ => none
  | .wait i =>
    match s.clients i with
    | .done request answer => some (s.move i (.finished request answer))
    | _ => none
  | .clear i =>
    match s.clients i with
    | .finished request answer =>
      some { s.move i .idle with hashprocessing := 0, returned := s.returned ++ [(i, request, answer)] }
    | _ => none
  | .serve => serveStep s

/-- The client is about to set the flag. -/
def Client.isSeen : Client → Bool
  | .seen _ => true
  | _ => false

/-- A client sees the flag only when no other client is about to set it. -/
def Separate (s : Node ι) : Event ι → Prop
  | .see _ _ => ∀ j, ¬ (s.clients j).isSeen
  | _ => True

instance [Fintype ι] (s : Node ι) : ∀ e, Decidable (Separate s e)
  | .see _ _ => inferInstanceAs (Decidable (∀ j, ¬ (s.clients j).isSeen))
  | .set _ | .enqueue _ | .wait _ | .clear _ | .serve => .isTrue trivial

/-- The queue that holds the client's packet. -/
def Client.waitsAt : Client → Option Bool
  | .queued request => some request.queue
  | _ => none

/-- The client has set the flag and not yet cleared it. -/
def Client.past : Client → Bool
  | .idle | .seen _ => false
  | _ => true

def Client.answer : Client → Option (Request × Answer)
  | .done request answer | .finished request answer => some (request, answer)
  | _ => none

/-- What the clients are owed: one request at most is enqueued and not served, its queue answers it
next, the server gets to it, and what a client takes home is the answer of the table to its own
request. -/
structure Kept (s : Node ι) : Prop where
  single : ∀ i j request request', s.clients i = .queued request → s.clients j = .queued request' → i = j
  next : ∀ i request, s.clients i = .queued request →
    (queueDequeue (s.queues request.queue).queue).1 = some i
  answered : ∀ i request, s.clients i = .queued request → ∃ n s' answer,
    Run.run step s (List.replicate n .serve) = some s' ∧ s'.clients i = .done request answer
  own : ∀ i request answer, (i, request, answer) ∈ s.returned →
    ∃ hp, (i, request, hp) ∈ s.served ∧ answer = (respond hp request).1

/-! ## The invariant -/

structure Inv (s : Node ι) : Prop where
  alone : ∀ i, s.clients i ≠ .idle → ∀ j, s.clients j ≠ .idle → j = i
  flag : ∀ i, (s.clients i).past → s.hashprocessing = 1
  paced : ∀ q, Single (s.queues q)
  front : ∀ q i, (queueDequeue (s.queues q).queue).1 = some i ↔ (s.clients i).waitsAt = some q
  answered : ∀ i request answer, (s.clients i).answer = some (request, answer) ∨ (i, request, answer) ∈ s.returned →
    ∃ hp, (i, request, hp) ∈ s.served ∧ answer = (respond hp request).1

variable {s : Node ι} {i : ι}

omit [DecidableEq ι] in
theorem Inv.front_eq_none (h : Inv s) (hi : s.clients i ≠ .idle) {q : Bool} (hq : (s.clients i).waitsAt ≠ some q) :
    (queueDequeue (s.queues q).queue).1 = none := by
  rw [Option.eq_none_iff_forall_not_mem]
  intro j hj
  have hj := (h.front q j).mp hj
  have hne : s.clients j ≠ .idle := by
    intro hidle
    rw [hidle] at hj
    cases hj
  obtain rfl := h.alone i hi j hne
  exact hq hj

/-- A move of the only client inside that leaves the queues and the table alone. -/
theorem Inv.move (h : Inv s) {c : Client} {s' : Node ι} (hsole : ∀ j, s.clients j ≠ .idle → j = i)
    (hold : (s.clients i).waitsAt = none) (hnew : c.waitsAt = none)
    (hclients : s'.clients = Function.update s.clients i c) (hqueues : s'.queues = s.queues)
    (hserved : s'.served = s.served) (hflag : c.past → s'.hashprocessing = 1)
    (hanswer : ∀ request answer, c.answer = some (request, answer) → (s.clients i).answer = some (request, answer))
    (hreturned : ∀ p ∈ s'.returned, p ∈ s.returned ∨ p.1 = i ∧ (s.clients i).answer = some p.2) : Inv s' where
  alone j hj k hk := by
    have hall : ∀ j, s'.clients j ≠ .idle → j = i := by
      intro j hj
      rw [hclients] at hj
      by_cases hji : j = i
      · exact hji
      · rw [Function.update_of_ne hji] at hj
        exact hsole j hj
    rw [hall j hj, hall k hk]
  flag j hj := by
    rw [hclients, Function.update_apply] at hj
    split at hj
    · exact hflag hj
    · next hji =>
      have hidle : s.clients j = .idle := not_not.mp fun hne => hji (hsole j hne)
      rw [hidle] at hj
      cases hj
  paced q := by
    rw [hqueues]
    exact h.paced q
  front q j := by
    rw [hqueues, hclients, Function.update_apply, h.front q j]
    split
    · next hji => rw [hji, hold, hnew]
    · rfl
  answered j request answer hj := by
    rw [hserved]
    refine h.answered j request answer ?_
    rcases hj with hj | hj
    · rw [hclients, Function.update_apply] at hj
      split at hj
      · next hji => exact .inl (hji ▸ hanswer request answer hj)
      · exact .inl hj
    · rcases hreturned _ hj with hj | ⟨rfl, hj⟩
      · exact .inr hj
      · exact .inl hj

theorem Inv.alone_move (h : Inv s) (hi : s.clients i ≠ .idle) (c : Client) (j : ι)
    (hj : (s.move i c).clients j ≠ .idle) : j = i := by
  simp only [Node.move, Function.update_apply] at hj
  split at hj
  · assumption
  · exact h.alone i hi j hj

theorem Inv.enqueue (h : Inv s) {request : Request} (hi : s.clients i = .entered request) :
    Inv { s.move i (.queued request) with
      queues := Function.update s.queues request.queue ((s.queues request.queue).step (.enqueue i)) } := by
  have hne : s.clients i ≠ .idle := by simp [hi]
  have hnone : ∀ q, (queueDequeue (s.queues q).queue).1 = none :=
    fun q => h.front_eq_none hne (by simp [hi, Client.waitsAt])
  have hsize := (h.paced request.queue).front_eq_none.mp (hnone request.queue)
  refine ⟨fun j hj k hk => (h.alone_move hne _ k hk).trans (h.alone_move hne _ j hj).symm,
    fun j _ => h.flag i (by rw [hi]; rfl), fun q => ?_, fun q j => ?_,
    fun j request' answer hj => h.answered j request' answer (hj.imp_left fun hj => ?_)⟩
  · simp only [Function.update_apply]
    split
    · exact (h.paced request.queue).enqueue i hsize
    · exact h.paced q
  · simp only [Node.move, Function.update_apply]
    by_cases hj : j = i
    · subst hj
      by_cases hq : q = request.queue
      · subst hq
        simp [(h.paced request.queue).front_enqueue j hsize, Client.waitsAt]
      · simp [hq, hnone q, Client.waitsAt, Ne.symm hq]
    · have hidle : s.clients j = .idle := not_not.mp fun hjne => hj (h.alone i hne j hjne)
      by_cases hq : q = request.queue
      · subst hq
        simp [(h.paced request.queue).front_enqueue i hsize, hj, Ne.symm hj, hidle, Client.waitsAt]
      · simp [hq, hnone q, hj, hidle, Client.waitsAt]
  · simp only [Node.move, Function.update_apply] at hj
    split at hj
    · cases hj
    · exact hj

omit [DecidableEq ι] in
theorem Inv.dequeue_paced (h : Inv s) (q : Bool) : Single (s.dequeue.queues q) := by
  simp only [Node.dequeue, Function.update_apply]
  split
  · exact (h.paced s.iter).dequeue
  · exact h.paced q

omit [DecidableEq ι] in
theorem Inv.dequeue_front (h : Inv s) (q : Bool) : (queueDequeue (s.dequeue.queues q).queue).1 =
    if q = s.iter then none else (queueDequeue (s.queues q).queue).1 := by
  simp only [Node.dequeue, Function.update_apply]
  split
  · exact (h.paced s.iter).front_dequeue
  · rfl

omit [DecidableEq ι] in
theorem Inv.turn (h : Inv s) (hnone : (queueDequeue (s.queues s.iter).queue).1 = none) :
    Inv { s.dequeue with iter := !s.iter } := by
  refine ⟨h.alone, h.flag, h.dequeue_paced, fun q j => ?_, h.answered⟩
  show (queueDequeue (s.dequeue.queues q).queue).1 = some j ↔ (s.clients j).waitsAt = some q
  rw [h.dequeue_front, ← h.front q j]
  split
  · next hq => rw [hq, hnone]
  · rfl

theorem Inv.answer (h : Inv s) {request : Request} (hi : s.clients i = .queued request)
    (hfront : (queueDequeue (s.queues s.iter).queue).1 = some i) : Inv (s.dequeue.answer i request) := by
  have hne : s.clients i ≠ .idle := by simp [hi]
  have hsole := h.alone_move hne (.done request (respond s.hp request).1)
  refine ⟨fun j hj k hk => (hsole k hk).trans (hsole j hj).symm, fun j _ => h.flag i (by rw [hi]; rfl),
    h.dequeue_paced, fun q j => ?_, fun j request' answer hj => ?_⟩
  · have hleft : (queueDequeue (s.dequeue.queues q).queue).1 = none := by
      rw [h.dequeue_front]
      split
      · rfl
      · next hq =>
        refine h.front_eq_none hne ?_
        rw [(h.front s.iter i).mp hfront]
        exact fun heq => hq (Option.some.inj heq).symm
    have hright : ((s.move i (.done request (respond s.hp request).1)).clients j).waitsAt = none := by
      by_cases hj : (s.move i (.done request (respond s.hp request).1)).clients j = .idle
      · rw [hj]
        rfl
      · obtain rfl := hsole j hj
        simp [Node.move, Client.waitsAt]
    show (queueDequeue (s.dequeue.queues q).queue).1 = some j ↔
      ((s.move i (.done request (respond s.hp request).1)).clients j).waitsAt = some q
    rw [hleft, hright]
    simp
  · have hnew : (s.move i (.done request (respond s.hp request).1)).clients i =
        .done request (respond s.hp request).1 := by
      simp [Node.move]
    rcases hj with hj | hj
    · change ((s.move i (.done request (respond s.hp request).1)).clients j).answer = some (request', answer) at hj
      have hji : j = i := by
        apply hsole j
        intro hidle
        rw [hidle] at hj
        cases hj
      subst hji
      rw [hnew] at hj
      obtain ⟨rfl, rfl⟩ := Prod.mk.inj (Option.some.inj hj)
      exact ⟨s.hp, List.mem_append_right _ (List.mem_singleton_self _), rfl⟩
    · obtain ⟨hp, hmem, hans⟩ := h.answered j request' answer (.inr hj)
      exact ⟨hp, List.mem_append_left _ hmem, hans⟩

theorem Inv.serve (h : Inv s) {s' : Node ι} (hstep : serveStep s = some s') : Inv s' := by
  unfold serveStep at hstep
  split at hstep
  · next hnone =>
    obtain rfl := Option.some.inj hstep
    exact h.turn hnone
  · next i hfront =>
    split at hstep
    · next request hi =>
      obtain rfl := Option.some.inj hstep
      exact h.answer hi hfront
    · cases hstep

omit [DecidableEq ι] in
theorem Inv.idle (h : Inv s) (hseparate : ∀ j, ¬ (s.clients j).isSeen) (hzero : s.hashprocessing = 0) (j : ι) :
    s.clients j = .idle := by
  cases hj : s.clients j with
  | idle => rfl
  | seen request => exact absurd (by rw [hj]; rfl) (hseparate j)
  | _ => simpa [hzero] using h.flag j (by rw [hj]; rfl)

theorem Inv.see (h : Inv s) (hseparate : ∀ j, ¬ (s.clients j).isSeen) (hzero : s.hashprocessing = 0) (i : ι)
    (request : Request) : Inv (s.move i (.seen request)) := by
  have hidle := h.idle hseparate hzero
  exact h.move (fun j hj => absurd (hidle j) hj) (by rw [hidle i]; rfl) (by rfl) rfl rfl rfl nofun nofun
    fun p hp => .inl hp

theorem Inv.clear (h : Inv s) {request : Request} {answer : Answer} (hi : s.clients i = .finished request answer) :
    Inv { s.move i .idle with hashprocessing := 0, returned := s.returned ++ [(i, request, answer)] } := by
  refine h.move (h.alone i (by simp [hi])) (by rw [hi]; rfl) (by rfl) rfl rfl rfl nofun nofun fun p hp => ?_
  rcases List.mem_append.mp hp with hp | hp
  · exact .inl hp
  · rw [List.mem_singleton] at hp
    subst hp
    exact .inr ⟨rfl, by rw [hi]; rfl⟩

theorem step_inv {s s' : Node ι} {e : Event ι} (hok : Separate s e) (hstep : step s e = some s') (h : Inv s) :
    Inv s' := by
  cases e with
  | see i request =>
    cases hc : s.clients i with
    | idle =>
      simp only [step, hc] at hstep
      split at hstep
      · next hzero =>
        obtain rfl := Option.some.inj hstep
        exact h.see hok hzero i request
      · cases hstep
    | _ => simp [step, hc] at hstep
  | set i =>
    cases hc : s.clients i with
    | seen request =>
      simp only [step, hc] at hstep
      obtain rfl := Option.some.inj hstep
      exact h.move (h.alone i (by simp [hc])) (by rw [hc]; rfl) (by rfl) rfl rfl rfl (fun _ => rfl) nofun
        fun p hp => .inl hp
    | _ => simp [step, hc] at hstep
  | enqueue i =>
    cases hc : s.clients i with
    | entered request =>
      simp only [step, hc] at hstep
      obtain rfl := Option.some.inj hstep
      exact h.enqueue hc
    | _ => simp [step, hc] at hstep
  | wait i =>
    cases hc : s.clients i with
    | done request answer =>
      simp only [step, hc] at hstep
      obtain rfl := Option.some.inj hstep
      exact h.move (h.alone i (by simp [hc])) (by rw [hc]; rfl) (by rfl) rfl rfl rfl
        (fun _ => h.flag i (by rw [hc]; rfl)) (fun _ _ hans => by rw [hc]; exact hans) fun p hp => .inl hp
    | _ => simp [step, hc] at hstep
  | clear i =>
    cases hc : s.clients i with
    | finished request answer =>
      simp only [step, hc] at hstep
      obtain rfl := Option.some.inj hstep
      exact h.clear hc
    | _ => simp [step, hc] at hstep
  | serve => exact h.serve hstep

theorem Inv.serveStep_queued (h : Inv s) {request : Request} (hi : s.clients i = .queued request)
    (hq : s.iter = request.queue) : ∃ s' answer, serveStep s = some s' ∧ s'.clients i = .done request answer := by
  have hfront : (queueDequeue (s.queues s.iter).queue).1 = some i :=
    (h.front s.iter i).mpr (by rw [hi, hq]; rfl)
  have hstep : serveStep s = some (s.dequeue.answer i request) := by simp [serveStep, hfront, hi]
  exact ⟨_, (respond s.hp request).1, hstep, by simp [Node.answer, Node.dequeue, Node.move]⟩

theorem Inv.served_soon (h : Inv s) {request : Request} (hi : s.clients i = .queued request) :
    ∃ n s' answer, Run.run step s (List.replicate n .serve) = some s' ∧ s'.clients i = .done request answer := by
  by_cases hq : s.iter = request.queue
  · obtain ⟨s', answer, hstep, hdone⟩ := h.serveStep_queued hi hq
    exact ⟨1, s', answer, by simp [step, hstep], hdone⟩
  · have hnone : (queueDequeue (s.queues s.iter).queue).1 = none :=
      h.front_eq_none (i := i) (by simp [hi]) (by simpa [hi, Client.waitsAt] using Ne.symm hq)
    have hfirst : serveStep s = some { s.dequeue with iter := !s.iter } := by simp [serveStep, hnone]
    have hnext : (!s.iter) = request.queue := (Bool.eq_not_of_ne (Ne.symm hq)).symm
    obtain ⟨s', answer, hstep, hdone⟩ := (h.serve hfirst).serveStep_queued hi hnext
    exact ⟨2, s', answer, by simp [List.replicate, step, hfirst, hstep], hdone⟩

theorem Inv.kept (h : Inv s) : Kept s where
  single i j request request' hi hj := h.alone j (by simp [hj]) i (by simp [hi])
  next i request hi := (h.front request.queue i).mpr (by rw [hi]; rfl)
  answered i request hi := h.served_soon hi
  own i request answer hmem := h.answered i request answer (.inr hmem)

/-- Nothing has been asked yet. -/
def started (ι : Type) (hp : Hashtable) : Node ι := { hp := hp }

/-- **Every request is kept and answered** in a run whose clients see the flag separately. -/
theorem requests_kept (hp : Hashtable) {es : List (Event ι)} (hok : Run.Along step Separate (started ι hp) es)
    (hrun : Run.run step (started ι hp) es = some s) : Kept s := by
  have hinit : Inv (started ι hp) :=
    ⟨fun i hi => absurd rfl hi, nofun, fun q => .fresh, fun q i => (by simp [started, queueDequeue, Client.waitsAt]),
      fun i request answer h => (by simp [started, Client.answer] at h)⟩
  exact (Run.run_invariant (fun hok hstep => step_inv hok hstep) hok hrun hinit).kept

/-- One client after the other. -/
def inTurn : List (Event (Fin 2)) :=
  [.see 0 (.add "t1".toList), .set 0, .enqueue 0, .serve, .serve, .wait 0, .clear 0,
    .see 1 (.search "t1".toList), .set 1, .enqueue 1]

theorem requests_kept_inTurn :
    ∃ s, Run.run step (started (Fin 2) (hashtableCreate 100 68)) inTurn = some s ∧ Kept s := by
  have hrun : (Run.run step (started (Fin 2) (hashtableCreate 100 68)) inTurn).isSome := by decide +kernel
  obtain ⟨s, hs⟩ := Option.isSome_iff_exists.mp hrun
  exact ⟨s, hs, requests_kept (hashtableCreate 100 68) (by decide +kernel) hs⟩

/-- Both clients see the flag before either sets it; the second packet takes the slot of the first. -/
theorem not_forall_requests_kept :
    ¬ ∀ (hp : Hashtable) (es : List (Event (Fin 2))) (s : Node (Fin 2)),
      Run.run step (started (Fin 2) hp) es = some s → Kept s := by
  intro h
  have hboth : ((Run.run step (started (Fin 2) (hashtableCreate 100 68))
      [.see 0 (.add "t1".toList), .see 1 (.add "u2".toList), .set 0, .set 1, .enqueue 0, .enqueue 1]).map
        fun s => (s.clients 0, (queueDequeue (s.queues Bool.true).queue).1)) =
      some (.queued (.add "t1".toList), some 1) := by decide +kernel
  obtain ⟨s, hs, heq⟩ := Option.map_eq_some_iff.mp hboth
  obtain ⟨hzero, hfront⟩ := Prod.mk.inj heq
  have hnext := (h _ _ s hs).next 0 _ hzero
  exact absurd (hnext.symm.trans hfront) (by decide)

end
end NXTServices.Requests
