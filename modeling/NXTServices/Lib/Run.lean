import Mathlib.Logic.Relation
import Mathlib.Data.List.Basic

/-!
# Runs of a step function

* `run` : the state after a list of events, `none` when one of them has no defined effect;
* `run_take_one` : the first one is enough where none changes what any of them made;
* `Along` : a condition that every step of a run meets, and `along_congr` to state it in another way;
* `run_invariant` : what every such step preserves, the run preserves;
* `Always` : a property of every state of a run, and how it goes with a condition on the steps;
* `Leaves` : the end of a loop that may go on for ever;
* `parallel` : systems side by side, each event being one system's.
-/

namespace Run
variable {S E : Type*} {step : S → E → Option S} {s s' : S}

def run (step : S → E → Option S) (s : S) (es : List E) : Option S := es.foldlM step s

@[simp] theorem run_nil : run step s [] = some s := rfl

@[simp] theorem run_cons (e : E) (es : List E) :
    run step s (e :: es) = (step s e).bind fun s' => run step s' es := rfl

theorem run_singleton (e : E) : run step s [e] = step s e := Option.bind_fun_some _

theorem run_append (es es' : List E) :
    run step s (es ++ es') = (run step s es).bind fun s' => run step s' es' := List.foldlM_append

theorem run_getD {es : List E} (h : (run step s es).isSome) (d : S) :
    run step s es = some ((run step s es).getD d) := by
  rw [← Option.get_eq_getD, Option.some_get]
  exact h

theorem run_fixed {es : List E} (h : ∀ e ∈ es, step s e = some s) : run step s es = some s := by
  induction es with
  | nil => rfl
  | cons e es ih =>
    obtain ⟨he, hes⟩ := List.forall_mem_cons.mp h
    rw [run_cons, he]
    exact ih hes

theorem run_take_one {es : List E} (h : ∀ e ∈ es, ∀ e' ∈ es, ∀ s s', step s e = some s' → step s' e' = some s')
    (s : S) :
    run step s es = run step s (es.take 1) := by
  cases es with
  | nil => rfl
  | cons e es =>
    show (step s e).bind (fun s' => run step s' es) = run step s [e]
    rw [run_singleton]
    cases hstep : step s e with
    | none => rfl
    | some s' =>
      exact run_fixed fun e' he' => h e List.mem_cons_self e' (List.mem_cons_of_mem e he') s s' hstep

/-- Every step that the run takes meets `ok`. -/
def Along (step : S → E → Option S) (ok : S → E → Prop) : S → List E → Prop
  | _, [] => True
  | s, e :: es => ok s e ∧ ∀ s', step s e = some s' → Along step ok s' es

instance decidableAlong {ok : S → E → Prop} [∀ s e, Decidable (ok s e)] :
    ∀ s es, Decidable (Along step ok s es)
  | _, [] => .isTrue trivial
  | s, e :: es =>
    have (s' : S) : Decidable (Along step ok s' es) := decidableAlong s' es
    inferInstanceAs (Decidable (ok s e ∧ ∀ s' ∈ step s e, Along step ok s' es))

theorem along_of_forall {ok : S → E → Prop} {es : List E} (h : ∀ s, ∀ e ∈ es, ok s e) (s : S) :
    Along step ok s es := by
  induction es generalizing s with
  | nil => trivial
  | cons e es ih =>
    exact ⟨h s e List.mem_cons_self, fun s' _ => ih (fun s e he => h s e (List.mem_cons_of_mem _ he)) s'⟩

theorem along_mono {ok ok' : S → E → Prop} (h : ∀ s e, ok s e → ok' s e) {es : List E} (hok : Along step ok s es) :
    Along step ok' s es := by
  induction es generalizing s with
  | nil => trivial
  | cons e es ih => exact ⟨h s e hok.1, fun s' hs' => ih (hok.2 s' hs')⟩

theorem along_congr {ok ok' : S → E → Prop} (Inv : S → Prop) (h : ∀ s e, Inv s → (ok s e ↔ ok' s e))
    (hstep : ∀ s e s', Inv s → ok s e → step s e = some s' → Inv s') {es : List E} (hs : Inv s) :
    Along step ok s es ↔ Along step ok' s es := by
  induction es generalizing s with
  | nil => exact Iff.rfl
  | cons e es ih =>
    show (ok s e ∧ _) ↔ (ok' s e ∧ _)
    rw [← h s e hs]
    apply and_congr_right
    intro hok
    exact forall₂_congr fun s' hs' => ih (hstep s e s' hs hok hs')

/-- **The invariant rule.** -/
theorem run_invariant {ok : S → E → Prop} {Inv : S → Prop}
    (hstep : ∀ {s e s'}, ok s e → step s e = some s' → Inv s → Inv s') {es : List E}
    (hok : Along step ok s es) (hrun : run step s es = some s') (h : Inv s) : Inv s' := by
  induction es generalizing s with
  | nil =>
    obtain rfl := Option.some.inj hrun
    exact h
  | cons e es ih =>
    obtain ⟨mid, hmid, hrest⟩ := Option.bind_eq_some_iff.mp hrun
    exact ih (hok.2 mid hmid) hrest (hstep hok.1 hmid h)

/-- `P` holds of every state of the run. -/
def Always (step : S → E → Option S) (P : S → Prop) : S → List E → Prop
  | s, [] => P s
  | s, e :: es => P s ∧ ∀ s', step s e = some s' → Always step P s' es

instance decidableAlways {P : S → Prop} [DecidablePred P] : ∀ s es, Decidable (Always step P s es)
  | s, [] => inferInstanceAs (Decidable (P s))
  | s, e :: es =>
    have (s' : S) : Decidable (Always step P s' es) := decidableAlways s' es
    inferInstanceAs (Decidable (P s ∧ ∀ s' ∈ step s e, Always step P s' es))

section Always
variable {P : S → Prop} (Inv : S → Prop) {ok : S → E → Prop} {es : List E}

theorem Always.head (h : Always step P s es) : P s := by
  cases es with
  | nil => exact h
  | cons e es => exact h.1

/-- Steps that meet `ok` keep an invariant, from which `P` follows. -/
theorem always_of_along (hP : ∀ s, Inv s → P s)
    (hstep : ∀ {s e s'}, ok s e → step s e = some s' → Inv s → Inv s') (hok : Along step ok s es) (h : Inv s) :
    Always step P s es := by
  induction es generalizing s with
  | nil => exact hP s h
  | cons e es ih => exact ⟨hP s h, fun s' hs' => ih (hok.2 s' hs') (hstep hok.1 hs' h)⟩

theorem along_of_always (hstep : ∀ {s e s'}, step s e = some s' → Inv s → Inv s')
    (hok : ∀ {s e}, Inv s → (∀ s', step s e = some s' → P s') → ok s e) (halways : Always step P s es)
    (h : Inv s) : Along step ok s es := by
  induction es generalizing s with
  | nil => trivial
  | cons e es ih =>
    exact ⟨hok h fun s' hs' => (halways.2 s' hs').head, fun s' hs' => ih (halways.2 s' hs') (hstep hs' h)⟩

end Always

/-! ## Loops -/

/-- A turn of a loop ends with the next one or with the end of the loop. -/
inductive Turn (S : Type*) where
  | again (s : S)
  | left (s : S)

/-- The loop is left with `s'`. -/
inductive Leaves (turn : S → Option (Turn S)) : S → S → Prop
  | left {s s' : S} : turn s = some (.left s') → Leaves turn s s'
  | again {s mid s' : S} : turn s = some (.again mid) → Leaves turn mid s' → Leaves turn s s'

theorem Leaves.unique {turn : S → Option (Turn S)} {s s' s'' : S} (h : Leaves turn s s') (h' : Leaves turn s s'') :
    s' = s'' := by
  induction h with
  | left hturn =>
    cases h' with
    | left hturn' => exact Turn.left.inj (Option.some.inj (hturn.symm.trans hturn'))
    | again hturn' _ => cases hturn.symm.trans hturn'
  | again hturn _ ih =>
    cases h' with
    | left hturn' => cases hturn.symm.trans hturn'
    | again hturn' hleaves =>
      obtain rfl := Turn.again.inj (Option.some.inj (hturn.symm.trans hturn'))
      exact ih hleaves

/-! ## Side by side -/

section Parallel
variable {ι : Type*} [DecidableEq ι] {steps : ι → S → E → Option S} {σ σ' : ι → S}

/-- The event of one system; the others wait. -/
def parallel (steps : ι → S → E → Option S) (σ : ι → S) (e : ι × E) : Option (ι → S) :=
  (steps e.1 (σ e.1) e.2).map (Function.update σ e.1)

/-- A system's own events. -/
def eventsOf (i : ι) (es : List (ι × E)) : List E := (es.filter fun e => e.1 = i).map Prod.snd

/-- **Each system runs its own events.** -/
theorem run_parallel {es : List (ι × E)} (hrun : run (parallel steps) σ es = some σ') (i : ι) :
    run (steps i) (σ i) (eventsOf i es) = some (σ' i) := by
  induction es generalizing σ with
  | nil =>
    obtain rfl := Option.some.inj hrun
    rfl
  | cons e es ih =>
    obtain ⟨mid, hmid, hrest⟩ := Option.bind_eq_some_iff.mp hrun
    obtain ⟨t, ht, rfl⟩ := Option.map_eq_some_iff.mp hmid
    have := ih hrest
    by_cases hi : e.1 = i
    · subst hi
      simpa [eventsOf, ht] using this
    · simpa [eventsOf, hi, Function.update_of_ne (Ne.symm hi)] using this

theorem mem_of_mem_eventsOf {i : ι} {e : E} {es : List (ι × E)} (h : e ∈ eventsOf i es) : (i, e) ∈ es := by
  obtain ⟨⟨j, e'⟩, hmem, rfl⟩ := List.mem_map.mp h
  obtain ⟨hes, hj⟩ := List.mem_filter.mp hmem
  rw [decide_eq_true_eq] at hj
  exact hj ▸ hes

end Parallel
end Run
