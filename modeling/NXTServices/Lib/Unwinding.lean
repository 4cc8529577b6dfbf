import NXTServices.Lib.Run

/-!
# What is seen of a run

* `Unwinds` : a view of the states that the events of others leave alone, and that alone decides what its own events do;
* `run_filter` : the view after a run is the one after its own events;
* `answers`, `answers_filter` : the same for what its own events are answered.
-/

namespace Unwinding
open Run (run run_cons)

variable {S E V O : Type*}

/-- The events that meet `about` are the view's own; the runs have only events that meet `ok`. -/
structure Unwinds (step : S → E → Option S) (Inv : S → Prop) (ok about : E → Prop) (view : S → V) : Prop where
  keeps : ∀ {s e s'}, Inv s → step s e = some s' → Inv s'
  respects : ∀ {s e s'}, Inv s → ok e → ¬about e → step s e = some s' → view s' = view s
  consistent : ∀ {s t e s'}, Inv s → Inv t → ok e → view s = view t → about e → step s e = some s' →
    ∃ t', step t e = some t' ∧ view s' = view t'

/-- What the events that meet `about` are answered. -/
def answers (step : S → E → Option S) (about : E → Prop) [DecidablePred about] (answer : S → E → O) :
    S → List E → List O
  | _, [] => []
  | s, e :: es =>
    (if about e then [answer s e] else []) ++ ((step s e).map fun s' => answers step about answer s' es).getD []

section
variable {step : S → E → Option S} {Inv : S → Prop} {ok about : E → Prop} {view : S → V} {answer : S → E → O}
  {s s' t : S} {es : List E}

theorem answers_cons_of_some [DecidablePred about] {e : E} (h : step s e = some s') :
    answers step about answer s (e :: es) =
    (if about e then [answer s e] else []) ++ answers step about answer s' es := by
  show _ ++ ((step s e).map _).getD [] = _
  rw [h]
  rfl

/-- **A run as it is seen** is that of the view's own events. -/
theorem run_filter [DecidablePred about] (h : Unwinds step Inv ok about view) (hok : ∀ e ∈ es, ok e) (hs : Inv s)
    (ht : Inv t) (hview : view s = view t) (hrun : run step s es = some s') :
    ∃ t', run step t (es.filter about) = some t' ∧ Inv t' ∧ view s' = view t' := by
  induction es generalizing s t with
  | nil =>
    obtain rfl := Option.some.inj hrun
    exact ⟨t, rfl, ht, hview⟩
  | cons e es ih =>
    obtain ⟨he, hes⟩ := List.forall_mem_cons.mp hok
    obtain ⟨mid, hmid, hrest⟩ := Option.bind_eq_some_iff.mp hrun
    have hinv := h.keeps hs hmid
    by_cases habout : about e
    · have hown : (e :: es).filter about = e :: es.filter about := List.filter_cons_of_pos (decide_eq_true habout)
      obtain ⟨tmid, htmid, hsame⟩ := h.consistent hs ht he hview habout hmid
      obtain ⟨t', ht', hinv', hview'⟩ := ih hes hinv (h.keeps ht htmid) hsame hrest
      refine ⟨t', ?_, hinv', hview'⟩
      rw [hown, run_cons, htmid]
      exact ht'
    · rw [List.filter_cons_of_neg (by simpa using habout)]
      exact ih hes hinv ht ((h.respects hs he habout hmid).trans hview) hrest

/-- **What is answered** is what would be without the events of others. -/
theorem answers_filter [DecidablePred about] (h : Unwinds step Inv ok about view)
    (hanswer : ∀ {s t e}, Inv s → Inv t → view s = view t → about e → answer s e = answer t e) (hok : ∀ e ∈ es, ok e)
    (hs : Inv s) (ht : Inv t) (hview : view s = view t) (hrun : run step s es = some s') :
    answers step about answer s es = answers step about answer t (es.filter about) := by
  induction es generalizing s t with
  | nil => rfl
  | cons e es ih =>
    obtain ⟨he, hes⟩ := List.forall_mem_cons.mp hok
    obtain ⟨mid, hmid, hrest⟩ := Option.bind_eq_some_iff.mp hrun
    have hinv := h.keeps hs hmid
    rw [answers_cons_of_some hmid]
    by_cases habout : about e
    · have hown : (e :: es).filter about = e :: es.filter about := List.filter_cons_of_pos (decide_eq_true habout)
      obtain ⟨tmid, htmid, hsame⟩ := h.consistent hs ht he hview habout hmid
      rw [hown, answers_cons_of_some htmid, if_pos habout,
        ih hes hinv (h.keeps ht htmid) hsame hrest, hanswer hs ht hview habout, if_pos habout]
    · rw [List.filter_cons_of_neg (by simpa using habout), if_neg habout, List.nil_append]
      exact ih hes hinv ht ((h.respects hs he habout hmid).trans hview) hrest

end

end Unwinding
