import Mathlib.Data.List.Infix
import Mathlib.Data.List.Count

/-!
# `queue_t`: the ring queue of `utils/jl777hash.h`

* `QueueT` : the slots and the counters of a `queue_t` (the mutex and its `initflag` do nothing to
  calls that follow one another);
* `queueEnqueue`, `queueDequeue` : the two operations, a null pointer being `none`;
* `Op`, `trace` : a sequence of calls on a zero-initialised queue;
* `FifoRun` : what a first-in first-out queue owes such a sequence;
* `Paced` : no call enqueues while a value is still pending;
* `fifoRun_drained_iff_paced` : the queue is a FIFO, down to its last value, exactly on the paced
  sequences.
-/

namespace NXTServices.Queue

/-- `struct queue`. `inn` is the field `in`. -/
structure QueueT (α : Type) where
  buffer : List (Option α) := []
  capacity : Nat := 0
  size : Nat := 0
  inn : Nat := 0
  out : Nat := 0

variable {α : Type}

/-- The body of the growth loop: one slot more, cleared. The loop runs at most once, since it leaves
`capacity` above `size`. -/
def queueGrow (q : QueueT α) : QueueT α :=
  if q.size = q.capacity then
    { q with capacity := q.capacity + 1, buffer := (q.buffer ++ [none]).set q.size none }
  else q

def queueEnqueue (q : QueueT α) (value : α) : QueueT α :=
  let q := queueGrow q
  { q with
    buffer := q.buffer.set q.inn (some value)
    size := q.size + 1
    inn := (q.inn + 1) % q.capacity }

def queueDequeue (q : QueueT α) : Option α × QueueT α :=
  if 0 < q.size then
    (q.buffer[q.out]?.join,
      { q with
        buffer := q.buffer.set q.out none
        size := q.size - 1
        out := (q.out + 1) % q.capacity })
  else (none, q)

@[simp] theorem queueEnqueue_size (q : QueueT α) (v : α) : (queueEnqueue q v).size = q.size + 1 := by
  unfold queueEnqueue queueGrow
  split <;> rfl

@[simp] theorem queueDequeue_size (q : QueueT α) : (queueDequeue q).2.size = q.size - 1 := by
  unfold queueDequeue
  split <;> simp; omega

/-! ## Sequences of calls -/

/-- One call on a queue. -/
inductive Op (α : Type) where
  | enqueue (value : α)
  | dequeue

/-- The queue after some calls, with the values enqueued and the non-null values returned so far. -/
structure Trace (α : Type) where
  queue : QueueT α := {}
  enqueued : List α := []
  returned : List α := []

def Trace.step (t : Trace α) : Op α → Trace α
  | .enqueue v => { t with queue := queueEnqueue t.queue v, enqueued := t.enqueued ++ [v] }
  | .dequeue =>
    { t with queue := (queueDequeue t.queue).2, returned := t.returned ++ (queueDequeue t.queue).1.toList }

def trace (ops : List (Op α)) : Trace α := ops.foldl Trace.step {}

@[simp] theorem trace_append_singleton (ops : List (Op α)) (op : Op α) :
    trace (ops ++ [op]) = (trace ops).step op := by
  simp [trace]

/-- A first-in first-out queue: after every call the values returned are the first ones enqueued, the
size counts the others, and a dequeue answers null only when there are no others. -/
structure FifoRun (ops : List (Op α)) : Prop where
  ordered : ∀ p, p <+: ops → (trace p).returned <+: (trace p).enqueued
  counted : ∀ p, p <+: ops → (trace p).queue.size + (trace p).returned.length = (trace p).enqueued.length
  empty : ∀ p, p ++ [.dequeue] <+: ops → (queueDequeue (trace p).queue).1 = none →
    (trace p).returned = (trace p).enqueued

theorem FifoRun.of_prefix {p ops : List (Op α)} (h : FifoRun ops) (hp : p <+: ops) : FifoRun p :=
  ⟨fun q hq => h.ordered q (hq.trans hp), fun q hq => h.counted q (hq.trans hp),
    fun q hq => h.empty q (hq.trans hp)⟩

/-- The values pending after some calls, read off the calls alone. -/
def pending (ops : List (Op α)) : Nat :=
  ops.foldl (fun n op => match op with | .enqueue _ => n + 1 | .dequeue => n - 1) 0

/-- No call enqueues while a value is pending. -/
def Paced (ops : List (Op α)) : Prop := ∀ p v, p ++ [.enqueue v] <+: ops → pending p = 0

theorem pending_eq_size (ops : List (Op α)) : pending ops = (trace ops).queue.size := by
  induction ops using List.reverseRecOn with
  | nil => rfl
  | append_singleton ops op ih =>
    rw [trace_append_singleton]
    cases op with
    | enqueue v => simp only [Trace.step, queueEnqueue_size, ← ih]; simp [pending]
    | dequeue => simp only [Trace.step, queueDequeue_size, ← ih]; simp [pending]

/-! ## Paced sequences

On a paced sequence the ring never has more than one slot, so both indices stay at `0` and the
growth, which keeps `in` where it wrapped, never moves a value. -/

/-- The states of a paced sequence. -/
inductive Single : Trace α → Prop
  | fresh : Single {}
  | idle (vs : List α) : Single ⟨⟨[none], 1, 0, 0, 0⟩, vs, vs⟩
  | held (vs : List α) (v : α) : Single ⟨⟨[some v], 1, 1, 0, 0⟩, vs ++ [v], vs⟩

theorem Single.enqueue {t : Trace α} (h : Single t) (v : α) (hsize : t.queue.size = 0) :
    Single (t.step (.enqueue v)) := by
  cases h with
  | fresh => simpa [Trace.step, queueEnqueue, queueGrow] using Single.held [] v
  | idle vs => simpa [Trace.step, queueEnqueue, queueGrow] using Single.held vs v
  | held vs w => simp at hsize

theorem Single.dequeue {t : Trace α} (h : Single t) : Single (t.step .dequeue) := by
  cases h with
  | fresh => simpa [Trace.step, queueDequeue] using Single.fresh
  | idle vs => simpa [Trace.step, queueDequeue] using Single.idle vs
  | held vs w => simpa [Trace.step, queueDequeue] using Single.idle (vs ++ [w])

theorem Single.front_eq_none {t : Trace α} (h : Single t) :
    (queueDequeue t.queue).1 = none ↔ t.queue.size = 0 := by
  cases h <;> simp [queueDequeue]

theorem Single.front_enqueue {t : Trace α} (h : Single t) (v : α) (hsize : t.queue.size = 0) :
    (queueDequeue (t.step (.enqueue v)).queue).1 = some v := by
  cases h with
  | fresh => rfl
  | idle vs => rfl
  | held vs w => simp at hsize

theorem Single.front_dequeue {t : Trace α} (h : Single t) : (queueDequeue (t.step .dequeue).queue).1 = none := by
  cases h <;> rfl

theorem Paced.of_prefix {p ops : List (Op α)} (h : Paced ops) (hp : p <+: ops) : Paced p :=
  fun q v hq => h q v (hq.trans hp)

theorem single_of_paced {ops : List (Op α)} (h : Paced ops) : Single (trace ops) := by
  induction ops using List.reverseRecOn with
  | nil => exact .fresh
  | append_singleton ops op ih =>
    have hs := ih (h.of_prefix (List.prefix_append ops [op]))
    rw [trace_append_singleton]
    cases op with
    | enqueue v => exact hs.enqueue v (by rw [← pending_eq_size]; exact h ops v List.prefix_rfl)
    | dequeue => exact hs.dequeue

theorem Single.ordered {t : Trace α} (h : Single t) : t.returned <+: t.enqueued := by
  cases h with
  | fresh => exact List.prefix_rfl
  | idle vs => exact List.prefix_rfl
  | held vs v => exact List.prefix_append vs [v]

theorem Single.counted {t : Trace α} (h : Single t) :
    t.queue.size + t.returned.length = t.enqueued.length := by
  cases h with
  | fresh => rfl
  | idle vs => simp
  | held vs v => simp [Nat.add_comm]

theorem Single.empty {t : Trace α} (h : Single t) (hnull : (queueDequeue t.queue).1 = none) :
    t.returned = t.enqueued := by
  cases h with
  | fresh => rfl
  | idle vs => rfl
  | held vs v => simp [queueDequeue] at hnull

theorem FifoRun.of_paced {ops : List (Op α)} (h : Paced ops) : FifoRun ops where
  ordered _ hp := (single_of_paced (h.of_prefix hp)).ordered
  counted _ hp := (single_of_paced (h.of_prefix hp)).counted
  empty _ hp hnull := (single_of_paced (h.of_prefix ((List.prefix_append _ _).trans hp))).empty hnull

theorem Paced.append_dequeue {ops : List (Op α)} (h : Paced ops) : Paced (ops ++ [.dequeue]) := by
  intro p v hp
  rcases List.prefix_concat_iff.mp hp with heq | hp
  · have hlast := (List.append_inj' heq rfl).2
    simp at hlast
  · exact h p v hp

theorem Paced.drain {ops : List (Op α)} (h : Paced ops) (n : Nat) :
    Paced (ops ++ List.replicate n .dequeue) := by
  induction n with
  | zero => simpa using h
  | succ n ih =>
    rw [List.replicate_succ', ← List.append_assoc]
    exact ih.append_dequeue

/-! ## Other sequences

An enqueue on a full ring of one slot or more grows the ring at its end but writes at `in`, which is
where the oldest value lies. From then on the ring holds fewer values than `size` says. -/

/-- The slots that hold a value. -/
def QueueT.filled (q : QueueT α) : Nat := q.buffer.countP Option.isSome

/-- Some value counted by `size` is in no slot. -/
def QueueT.Deficient (q : QueueT α) : Prop := q.filled < q.size

theorem countP_set_some_le (xs : List (Option α)) (i : Nat) (v : α) :
    (xs.set i (some v)).countP Option.isSome ≤ xs.countP Option.isSome + 1 := by
  by_cases hi : i < xs.length
  · rw [List.countP_set hi]
    simp only [Option.isSome_some, if_true]
    omega
  · rw [List.set_eq_of_length_le (by omega)]
    omega

theorem queueGrow_filled (q : QueueT α) : (queueGrow q).filled ≤ q.filled := by
  unfold queueGrow QueueT.filled
  split
  · by_cases hi : q.size < (q.buffer ++ [none]).length
    · simp only [List.countP_set hi, List.countP_append]
      simp
    · simp only [List.set_eq_of_length_le (by omega : (q.buffer ++ [none]).length ≤ q.size)]
      simp
  · exact le_rfl

theorem QueueT.Deficient.enqueue {q : QueueT α} (h : q.Deficient) (v : α) : (queueEnqueue q v).Deficient := by
  have hset := countP_set_some_le (queueGrow q).buffer (queueGrow q).inn v
  have hgrow := queueGrow_filled q
  unfold QueueT.Deficient QueueT.filled at *
  rw [queueEnqueue_size]
  show ((queueGrow q).buffer.set (queueGrow q).inn (some v)).countP Option.isSome < q.size + 1
  omega

theorem QueueT.Deficient.dequeue {q : QueueT α} (h : q.Deficient) (hsome : (queueDequeue q).1 ≠ none) :
    (queueDequeue q).2.Deficient := by
  have hpos : 0 < q.size := Nat.pos_of_ne_zero fun h0 => by simp [queueDequeue, h0] at hsome
  unfold queueDequeue at hsome ⊢
  rw [if_pos hpos] at hsome ⊢
  cases hslot : q.buffer[q.out]? with
  | none => simp [hslot] at hsome
  | some slot =>
    obtain ⟨hlt, hget⟩ := List.getElem?_eq_some_iff.mp hslot
    have hone : slot.isSome = true := by
      cases slot with
      | none => simp [hslot] at hsome
      | some v => rfl
    have hcount : 0 < q.buffer.countP Option.isSome :=
      List.countP_pos_iff.mpr ⟨slot, hget ▸ List.getElem_mem hlt, hone⟩
    unfold QueueT.Deficient QueueT.filled at *
    simp only [List.countP_set hlt, hget, hone]
    simp
    omega

theorem Single.overflow {t : Trace α} (h : Single t) (v : α) (hsize : t.queue.size ≠ 0) :
    (t.step (.enqueue v)).queue.Deficient := by
  cases h with
  | fresh => simp at hsize
  | idle vs => simp at hsize
  | held vs w => simp [Trace.step, queueEnqueue, queueGrow, QueueT.Deficient, QueueT.filled]

theorem FifoRun.answer_ne_none {ops : List (Op α)} (h : FifoRun (ops ++ [.dequeue]))
    (hsize : (trace ops).queue.size ≠ 0) : (queueDequeue (trace ops).queue).1 ≠ none := by
  intro hnull
  have hall := h.empty ops List.prefix_rfl hnull
  have hcount := h.counted ops (List.prefix_append _ _)
  rw [hall] at hcount
  omega

/-- While the sequence looks like a FIFO, the queue is deficient unless the sequence is paced. -/
theorem paced_or_deficient {ops : List (Op α)} (h : FifoRun ops) :
    Paced ops ∨ (trace ops).queue.Deficient := by
  induction ops using List.reverseRecOn with
  | nil => exact .inl fun p v hp => by simp at hp
  | append_singleton ops op ih =>
    have hops := h.of_prefix (List.prefix_append ops [op])
    rw [trace_append_singleton]
    rcases ih hops with hpaced | hdef
    · cases op with
      | dequeue => exact .inl hpaced.append_dequeue
      | enqueue v =>
        by_cases hsize : (trace ops).queue.size = 0
        · refine .inl fun p w hp => ?_
          rcases List.prefix_concat_iff.mp hp with heq | hp
          · rw [(List.append_inj' heq rfl).1, pending_eq_size, hsize]
          · exact hpaced p w hp
        · exact .inr ((single_of_paced hpaced).overflow v hsize)
    · cases op with
      | enqueue v => exact .inr (hdef.enqueue v)
      | dequeue =>
        have hsize : (trace ops).queue.size ≠ 0 := by unfold QueueT.Deficient at hdef; omega
        exact .inr (hdef.dequeue (h.answer_ne_none hsize))

/-- Draining a deficient queue answers null while a value is still due. -/
theorem not_fifoRun_drained_of_deficient (n : Nat) :
    ∀ ops : List (Op α), (trace ops).queue.size = n → (trace ops).queue.Deficient →
      ¬ ∀ k, FifoRun (ops ++ List.replicate k .dequeue) := by
  induction n with
  | zero =>
    intro ops hsize hdef _
    unfold QueueT.Deficient at hdef
    omega
  | succ n ih =>
    intro ops hsize hdef hfifo
    have hone : FifoRun (ops ++ [.dequeue]) := by simpa using hfifo 1
    have hsome := hone.answer_ne_none (by omega)
    refine ih (ops ++ [.dequeue]) ?_ ?_ fun k => ?_
    · simp [Trace.step, hsize]
    · rw [trace_append_singleton]
      exact hdef.dequeue hsome
    · have := hfifo (k + 1)
      rwa [List.replicate_succ, ← List.singleton_append, ← List.append_assoc] at this

/-- **Exactly the paced sequences see a FIFO**, however many dequeues follow to drain it. -/
theorem fifoRun_drained_iff_paced (ops : List (Op α)) :
    (∀ n, FifoRun (ops ++ List.replicate n .dequeue)) ↔ Paced ops := by
  constructor
  · intro h
    have hops : FifoRun ops := by simpa using h 0
    exact (paced_or_deficient hops).resolve_right
      fun hdef => not_fifoRun_drained_of_deficient _ ops rfl hdef h
  · exact fun h n => FifoRun.of_paced (h.drain n)

/-- Two enqueues in a row: the dequeue answers the second value and the first is lost. -/
theorem not_forall_fifoRun : ¬ ∀ ops : List (Op Nat), FifoRun ops := by
  intro h
  have hp := (h [.enqueue 1, .enqueue 2, .dequeue]).ordered _ List.prefix_rfl
  exact absurd hp (by decide)

end NXTServices.Queue
