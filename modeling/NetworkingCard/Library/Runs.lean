import Mathlib.Algebra.GroupWithZero.Nat
import Mathlib.Data.List.Basic
import Mathlib.Data.List.Infix
import Mathlib.Data.Option.Basic

/-!
# Runs of an event-driven system

A system is a partial step function `step : σ → ε → Option σ`: `none` means that the event is
not enabled in that state. A run is the left-to-right execution of a list of events.

* `run` with its composition lemmas, and `Along`, a condition met by every step of a run;
* `run_invariant`, the induction rule: what each step preserves holds in the final state, and
  `reaches_of_rank`, for a bound that the steps use up;
* `outputs`, what the steps of a run put out, `conserved_of_run`, for a queue between the inputs
  and the outputs of a run, `log_of_run`, for a log of the outputs, and `parity_of_run`, for a
  bit that they toggle;
* `run_of_simulation`, for a system whose steps stand for events of another one,
  `run_of_forward_simulation`, where only a relation connects the two, and `run_map_of_commutes`,
  for one that takes the same events;
* `instrument`, a run that also keeps a history value; the history never restricts the run.
-/

namespace Runs

variable {σ ε γ δ : Type} {step : σ → ε → Option σ}

/-- Execute the events in order; `none` as soon as one of them is not enabled. -/
def run (step : σ → ε → Option σ) : σ → List ε → Option σ
  | s, [] => some s
  | s, e :: es => (step s e).bind fun s' => run step s' es

@[simp] theorem run_nil (s : σ) : run step s [] = some s := rfl

theorem run_cons (s : σ) (e : ε) (es : List ε) :
    run step s (e :: es) = (step s e).bind fun s' => run step s' es := rfl

theorem run_cons_eq_some {s t : σ} {e : ε} {es : List ε} :
    run step s (e :: es) = some t ↔ ∃ s', step s e = some s' ∧ run step s' es = some t := by
  rw [run_cons, Option.bind_eq_some_iff]

theorem run_append (s : σ) (es fs : List ε) :
    run step s (es ++ fs) = (run step s es).bind fun s' => run step s' fs := by
  induction es generalizing s with
  | nil => rfl
  | cons e es ih =>
    rw [List.cons_append, run_cons, run_cons, Option.bind_assoc]
    exact congrArg _ (funext fun s' => ih s')

theorem run_append_eq_some {s t : σ} {es fs : List ε} :
    run step s (es ++ fs) = some t ↔ ∃ s', run step s es = some s' ∧ run step s' fs = some t := by
  rw [run_append, Option.bind_eq_some_iff]

theorem run_append_of_eq_some {s s' : σ} {es : List ε} (h : run step s es = some s')
    (fs : List ε) : run step s (es ++ fs) = run step s' fs := by
  rw [run_append, h, Option.bind_some]

theorem run_singleton (s : σ) (e : ε) : run step s [e] = step s e := by
  rw [run_cons]
  cases step s e <;> rfl

theorem run_concat_eq_some {s t : σ} {es : List ε} {e : ε} :
    run step s (es ++ [e]) = some t ↔ ∃ s', run step s es = some s' ∧ step s' e = some t := by
  simp only [run_append_eq_some, run_singleton]

/-- A system whose events are always enabled runs by folding its step function. -/
theorem run_total (f : σ → ε → σ) (s : σ) (es : List ε) :
    run (fun s e => some (f s e)) s es = some (es.foldl f s) := by
  induction es generalizing s with
  | nil => rfl
  | cons e es ih =>
    rw [run_cons, Option.bind_some, ih]
    rfl

/-! ## Conditions on the steps of a run -/

/-- Every step of the run meets `P` in the state in which it is taken. -/
def Along (step : σ → ε → Option σ) (P : σ → ε → Prop) : σ → List ε → Prop
  | _, [] => True
  | s, e :: es => P s e ∧ ∀ s', step s e = some s' → Along step P s' es

instance Along.decidable {P : σ → ε → Prop} [∀ s e, Decidable (P s e)] :
    ∀ s es, Decidable (Along step P s es)
  | _, [] => isTrue trivial
  | s, e :: es =>
    match h : step s e with
    | none => decidable_of_iff (P s e) (by simp [Along, h])
    | some s' =>
      have := Along.decidable (P := P) s' es
      decidable_of_iff (P s e ∧ Along step P s' es) (by simp [Along, h])

theorem along_cons_iff {P : σ → ε → Prop} {s s' : σ} {e : ε} (h : step s e = some s')
    (es : List ε) : Along step P s (e :: es) ↔ P s e ∧ Along step P s' es := by
  refine and_congr_right fun _ => ⟨fun hall => hall s' h, ?_⟩
  intro hrest s'' hs''
  obtain rfl : s' = s'' := Option.some.inj (h.symm.trans hs'')
  exact hrest

theorem Along.append {P : σ → ε → Prop} {s s' : σ} {es fs : List ε}
    (h : Along step P s (es ++ fs)) (hr : run step s es = some s') :
    Along step P s es ∧ Along step P s' fs := by
  induction es generalizing s with
  | nil =>
    cases hr
    exact ⟨trivial, h⟩
  | cons e es ih =>
    obtain ⟨t, ht, hr'⟩ := run_cons_eq_some.mp hr
    obtain ⟨_, hfs⟩ := ih (h.2 t ht) hr'
    exact ⟨⟨h.1, fun u hu => (ih (h.2 u hu) (by rw [ht] at hu; cases hu; exact hr')).1⟩, hfs⟩

theorem Along.and {P Q : σ → ε → Prop} {s : σ} {es : List ε} (hP : Along step P s es)
    (hQ : Along step Q s es) : Along step (fun s e => P s e ∧ Q s e) s es := by
  induction es generalizing s with
  | nil => trivial
  | cons e es ih => exact ⟨⟨hP.1, hQ.1⟩, fun s' hs' => ih (hP.2 s' hs') (hQ.2 s' hs')⟩

theorem Along.mono {P Q : σ → ε → Prop} (h : ∀ s e, P s e → Q s e) {s : σ} {es : List ε}
    (hP : Along step P s es) : Along step Q s es := by
  induction es generalizing s with
  | nil => trivial
  | cons e es ih => exact ⟨h s e hP.1, fun s' hs' => ih (hP.2 s' hs')⟩

/-- A condition along a run says the same as a condition at each split of its events. -/
theorem Along.at_split {P : σ → ε → Prop} {s s' : σ} {es fs : List ε} {e : ε}
    (h : Along step P s (es ++ e :: fs)) (hr : run step s es = some s') : P s' e :=
  (h.append hr).2.1

theorem along_of_forall {P : σ → ε → Prop} {es : List ε} (hP : ∀ s, ∀ e ∈ es, P s e) (s : σ) :
    Along step P s es := by
  induction es generalizing s with
  | nil => trivial
  | cons e es ih =>
    exact ⟨hP s e List.mem_cons_self,
      fun s' _ => ih (fun t f hf => hP t f (List.mem_cons_of_mem e hf)) s'⟩

theorem along_of_splits {P : σ → ε → Prop} {s : σ} {es : List ε}
    (h : ∀ before e after s', es = before ++ e :: after → run step s before = some s' → P s' e) :
    Along step P s es := by
  induction es generalizing s with
  | nil => trivial
  | cons e es ih =>
    refine ⟨h [] e es s rfl rfl, fun s' hs' => ih fun before f after t hes hr => ?_⟩
    apply h (e :: before) f after t
    · rw [hes, List.cons_append]
    · exact run_cons_eq_some.mpr ⟨s', hs', hr⟩

/-- Conditions along two parts of a run make one along the whole. -/
theorem Along.concat {P : σ → ε → Prop} {s s' : σ} {es fs : List ε} (h : Along step P s es)
    (hr : run step s es = some s') (h' : Along step P s' fs) : Along step P s (es ++ fs) := by
  induction es generalizing s with
  | nil =>
    cases hr
    exact h'
  | cons e es ih =>
    obtain ⟨t, ht, hr'⟩ := run_cons_eq_some.mp hr
    refine ⟨h.1, fun u hu => ?_⟩
    obtain rfl : t = u := Option.some.inj (ht.symm.trans hu)
    exact ih (h.2 t ht) hr'

/-! ## Induction over a run -/

/-- What every step meeting `P` preserves holds at the end of a run all of whose steps meet `P`. -/
theorem run_invariant_along {P : σ → ε → Prop} {I : σ → Prop}
    (hstep : ∀ s e s', I s → P s e → step s e = some s' → I s') {s t : σ} {es : List ε}
    (hs : I s) (hP : Along step P s es) (hr : run step s es = some t) : I t := by
  induction es generalizing s with
  | nil =>
    cases hr
    exact hs
  | cons e es ih =>
    obtain ⟨s', hs', hr'⟩ := run_cons_eq_some.mp hr
    exact ih (hstep s e s' hs hP.1 hs') (hP.2 s' hs') hr'

/-- A condition on the steps that follows from another one in the states that satisfy `I`. -/
theorem Along.imp_of_invariant {P Q : σ → ε → Prop} {I : σ → Prop}
    (hstep : ∀ s e s', I s → P s e → step s e = some s' → I s')
    (himp : ∀ s e, I s → P s e → Q s e) {s : σ} {es : List ε} (hs : I s)
    (hP : Along step P s es) : Along step Q s es := by
  induction es generalizing s with
  | nil => trivial
  | cons e es ih =>
    refine ⟨himp s e hs hP.1, ?_⟩
    intro s' hs'
    exact ih (hstep s e s' hs hP.1 hs') (hP.2 s' hs')

theorem run_invariant {I : σ → Prop} (hstep : ∀ s e s', I s → step s e = some s' → I s')
    {s t : σ} {es : List ε} (hs : I s) (hr : run step s es = some t) : I t :=
  run_invariant_along (P := fun _ _ => True) (fun s e s' h _ => hstep s e s' h) hs
    (along_of_forall (fun _ _ _ => trivial) s) hr

/-- What has to come: each step that meets `P` reaches the goal or uses up its cost of a rank that
is never 0, so a run reaches the goal before it has cost more than the rank. -/
theorem reaches_of_rank {P : σ → ε → Prop} {I : σ → ℕ → Prop} {D : σ → Prop} {cost : ε → ℕ}
    (hpos : ∀ s k, I s k → 0 < k)
    (hstep : ∀ s k e s', I s k → P s e → step s e = some s' → D s' ∨ ∃ k', k' + cost e ≤ k ∧ I s' k')
    {s t : σ} {k : ℕ} {es : List ε} (hs : I s k) (hP : Along step P s es)
    (hr : run step s es = some t) (hcost : k ≤ (es.map cost).sum) :
    ∃ es₁ es₂ s', es = es₁ ++ es₂ ∧ run step s es₁ = some s' ∧ D s' := by
  induction es generalizing s k with
  | nil =>
    have hk := hpos s k hs
    rw [List.map_nil, List.sum_nil] at hcost
    omega
  | cons e es ih =>
    obtain ⟨s', hs', hr'⟩ := run_cons_eq_some.mp hr
    rcases hstep s k e s' hs hP.1 hs' with hgoal | ⟨k', hk', hI⟩
    · exact ⟨[e], es, s', rfl, (run_singleton s e).trans hs', hgoal⟩
    · rw [List.map_cons, List.sum_cons] at hcost
      obtain ⟨es₁, es₂, u, rfl, hu, hgoal⟩ := ih hI (hP.2 s' hs') hr' (by omega)
      exact ⟨e :: es₁, es₂, u, rfl, run_cons_eq_some.mpr ⟨s', hs', hu⟩, hgoal⟩

/-! ## Outputs -/

/-- What the steps of a run put out, in order. -/
def outputs (step : σ → ε → Option σ) (out : σ → ε → List γ) : σ → List ε → List γ
  | _, [] => []
  | s, e :: es => out s e ++ ((step s e).map fun s' => outputs step out s' es).getD []

@[simp] theorem outputs_nil (out : σ → ε → List γ) (s : σ) : outputs step out s [] = [] := rfl

theorem outputs_cons {out : σ → ε → List γ} {s s' : σ} {e : ε} (h : step s e = some s')
    (es : List ε) : outputs step out s (e :: es) = out s e ++ outputs step out s' es := by
  rw [outputs, h, Option.map_some, Option.getD_some]

theorem outputs_append {out : σ → ε → List γ} {s s' : σ} {es : List ε} (h : run step s es = some s')
    (fs : List ε) :
    outputs step out s (es ++ fs) = outputs step out s es ++ outputs step out s' fs := by
  induction es generalizing s with
  | nil =>
    cases h
    rfl
  | cons e es ih =>
    obtain ⟨t, ht, hr⟩ := run_cons_eq_some.mp h
    rw [List.cons_append, outputs_cons ht, outputs_cons ht, ih hr, List.append_assoc]

theorem outputs_concat {out : σ → ε → List γ} {s s' t : σ} {es : List ε} {e : ε}
    (hr : run step s es = some s') (h : step s' e = some t) :
    outputs step out s (es ++ [e]) = outputs step out s es ++ out s' e := by
  rw [outputs_append hr, outputs_cons h, outputs_nil, List.append_nil]

/-- What depends on the events alone. -/
theorem outputs_of_events (out : ε → List γ) {s t : σ} {es : List ε} (hr : run step s es = some t) :
    outputs step (fun _ e => out e) s es = es.flatMap out := by
  induction es generalizing s with
  | nil => rfl
  | cons e es ih =>
    obtain ⟨s', hs', hr'⟩ := run_cons_eq_some.mp hr
    rw [outputs_cons hs', ih hr', List.flatMap_cons]

theorem outputs_map (f : γ → δ) (out : σ → ε → List γ) (s : σ) (es : List ε) :
    outputs step (fun s e => (out s e).map f) s es = (outputs step out s es).map f := by
  induction es generalizing s with
  | nil => rfl
  | cons e es ih =>
    rw [outputs, outputs, List.map_append]
    cases step s e with
    | none => rfl
    | some s' => exact congrArg _ (ih s')

/-- A simulation: if every step stands for a list of events of another system, then so does every
run. -/
theorem run_of_simulation {τ ζ : Type} {step' : τ → ζ → Option τ} {f : σ → τ} {ev : σ → ε → List ζ}
    (hstep : ∀ s e s', step s e = some s' → run step' (f s) (ev s e) = some (f s')) {s t : σ}
    {es : List ε} (hr : run step s es = some t) :
    run step' (f s) (outputs step ev s es) = some (f t) := by
  induction es generalizing s with
  | nil =>
    cases hr
    rfl
  | cons e es ih =>
    obtain ⟨s', hs', hr'⟩ := run_cons_eq_some.mp hr
    rw [outputs_cons hs', run_append_of_eq_some (hstep s e s' hs')]
    exact ih hr'

/-- A forward simulation: if every step that meets `P` keeps the two systems related, the other one
taking a list of events meanwhile, then so does every run. -/
theorem run_of_forward_simulation {τ ζ : Type} {step' : τ → ζ → Option τ} {R : σ → τ → Prop}
    {P : σ → ε → Prop} {ev : σ → ε → List ζ}
    (hstep : ∀ s e s' t, R s t → P s e → step s e = some s' →
      ∃ t', run step' t (ev s e) = some t' ∧ R s' t')
    {s s' : σ} {t : τ} {es : List ε} (h : R s t) (hP : Along step P s es)
    (hr : run step s es = some s') :
    ∃ t', run step' t (outputs step ev s es) = some t' ∧ R s' t' := by
  induction es generalizing s t with
  | nil =>
    cases hr
    exact ⟨t, rfl, h⟩
  | cons e es ih =>
    obtain ⟨s₁, hs₁, hr'⟩ := run_cons_eq_some.mp hr
    obtain ⟨t₁, ht₁, h₁⟩ := hstep s e s₁ t h hP.1 hs₁
    obtain ⟨t', ht', h'⟩ := ih h₁ (hP.2 s₁ hs₁) hr'
    refine ⟨t', ?_, h'⟩
    rw [outputs_cons hs₁, run_append_of_eq_some ht₁, ht']

/-- A refinement: where `I` holds, the abstraction of a step is the step of the abstraction, and so
it is with runs. -/
theorem run_map_of_commutes {τ : Type} {step' : τ → ε → Option τ} {f : σ → τ} {I : σ → Prop}
    (hcommutes : ∀ s e, I s → (step s e).map f = step' (f s) e)
    (hstep : ∀ s e s', I s → step s e = some s' → I s') {s : σ} (hs : I s) (es : List ε) :
    (run step s es).map f = run step' (f s) es := by
  induction es generalizing s with
  | nil => rfl
  | cons e es ih =>
    rw [run_cons, run_cons, ← hcommutes s e hs]
    cases h : step s e with
    | none => rfl
    | some s' => exact ih (hstep s e s' hs h)

/-- What the other system puts out, step by step of the first one. -/
theorem outputs_of_simulation {τ ζ : Type} {step' : τ → ζ → Option τ} {f : σ → τ}
    {ev : σ → ε → List ζ}
    (hstep : ∀ s e s', step s e = some s' → run step' (f s) (ev s e) = some (f s')) {s t : σ}
    {es : List ε} (hr : run step s es = some t) (out : τ → ζ → List γ) :
    outputs step' out (f s) (outputs step ev s es) =
      outputs step (fun s e => outputs step' out (f s) (ev s e)) s es := by
  induction es generalizing s with
  | nil => rfl
  | cons e es ih =>
    obtain ⟨s', hs', hr'⟩ := run_cons_eq_some.mp hr
    rw [outputs_cons hs', outputs_cons hs', outputs_append (hstep s e s' hs'), ih hr']

/-- A bit that every output toggles shows whether their number is odd. -/
theorem parity_of_run {I : σ → Prop} {f : σ → Bool} {out : σ → ε → List γ}
    (hI : ∀ s e s', I s → step s e = some s' → I s')
    (hstep : ∀ s e s', I s → step s e = some s' →
      f s' = (f s ^^ decide ((out s e).length % 2 = 1)))
    {s t : σ} {es : List ε} (hs : I s) (hr : run step s es = some t) :
    f t = (f s ^^ decide ((outputs step out s es).length % 2 = 1)) := by
  induction es generalizing s with
  | nil =>
    cases hr
    simp
  | cons e es ih =>
    obtain ⟨s', hs', hr'⟩ := run_cons_eq_some.mp hr
    have hsum : decide ((outputs step out s (e :: es)).length % 2 = 1) =
        (decide ((out s e).length % 2 = 1) ^^
          decide ((outputs step out s' es).length % 2 = 1)) := by
      rw [outputs_cons hs', List.length_append]
      by_cases h1 : (out s e).length % 2 = 1 <;>
        by_cases h2 : (outputs step out s' es).length % 2 = 1 <;> simp [h1, h2] <;> omega
    rw [ih (hI s e s' hs hs') hr', hstep s e s' hs hs', hsum, Bool.xor_assoc]

theorem length_outputs_le {out : σ → ε → List γ} (hout : ∀ s e, (out s e).length ≤ 1) (s : σ)
    (es : List ε) : (outputs step out s es).length ≤ es.length := by
  induction es generalizing s with
  | nil => exact le_rfl
  | cons e es ih =>
    have hfirst := hout s e
    rw [outputs, List.length_append, List.length_cons]
    cases step s e with
    | none => simp only [Option.map_none, Option.getD_none, List.length_nil]; omega
    | some s' =>
      have hrest := ih s'
      simp only [Option.map_some, Option.getD_some]
      omega

/-- A queue between inputs and outputs: what each step conserves is conserved by the run. -/
theorem conserved_of_run {P : σ → ε → Prop} {I : σ → Prop} {queue : σ → List γ}
    {out inp : σ → ε → List γ}
    (hstep : ∀ s e s', I s → P s e → step s e = some s' →
      I s' ∧ out s e ++ queue s' = queue s ++ inp s e)
    {s t : σ} {es : List ε} (hs : I s) (hP : Along step P s es) (hr : run step s es = some t) :
    outputs step out s es ++ queue t = queue s ++ outputs step inp s es := by
  induction es generalizing s with
  | nil =>
    cases hr
    simp
  | cons e es ih =>
    obtain ⟨s', hs', hr'⟩ := run_cons_eq_some.mp hr
    obtain ⟨hI, hqueue⟩ := hstep s e s' hs hP.1 hs'
    rw [outputs_cons hs', outputs_cons hs', List.append_assoc, ih hI (hP.2 s' hs') hr',
      ← List.append_assoc, hqueue, List.append_assoc]

/-- A log: what each step adds to it, the run adds to it. -/
theorem log_of_run {I : σ → Prop} {log : σ → List γ} {out : σ → ε → List γ}
    (hstep : ∀ s e s', I s → step s e = some s' → I s' ∧ log s' = log s ++ out s e)
    {s t : σ} {es : List ε} (hs : I s) (hr : run step s es = some t) :
    log t = log s ++ outputs step out s es := by
  induction es generalizing s with
  | nil =>
    cases hr
    exact (List.append_nil _).symm
  | cons e es ih =>
    obtain ⟨s', hs', hr'⟩ := run_cons_eq_some.mp hr
    obtain ⟨hI, hlog⟩ := hstep s e s' hs hs'
    rw [ih hI hr', hlog, outputs_cons hs', List.append_assoc]

/-! ## Histories -/

/-- The system that also keeps a history `γ`, updated from the two states of each step. -/
def instrument (step : σ → ε → Option σ) (upd : γ → σ → ε → σ → γ) (sg : σ × γ) (e : ε) :
    Option (σ × γ) :=
  (step sg.1 e).map fun s' => (s', upd sg.2 sg.1 e s')

theorem instrument_eq_some {upd : γ → σ → ε → σ → γ} {sg tg : σ × γ} {e : ε} :
    instrument step upd sg e = some tg ↔
      step sg.1 e = some tg.1 ∧ tg.2 = upd sg.2 sg.1 e tg.1 := by
  obtain ⟨t, g⟩ := tg
  constructor
  · intro h
    obtain ⟨s', hs', heq⟩ := Option.map_eq_some_iff.mp h
    cases heq
    exact ⟨hs', rfl⟩
  · rintro ⟨hs, hg⟩
    exact Option.map_eq_some_iff.mpr ⟨t, hs, congrArg (Prod.mk t) hg.symm⟩

/-- Forgetting the history gives back the run. -/
theorem run_of_run_instrument {upd : γ → σ → ε → σ → γ} {sg tg : σ × γ} {es : List ε}
    (h : run (instrument step upd) sg es = some tg) : run step sg.1 es = some tg.1 := by
  induction es generalizing sg with
  | nil =>
    cases h
    rfl
  | cons e es ih =>
    obtain ⟨s', hs', hr⟩ := run_cons_eq_some.mp h
    exact run_cons_eq_some.mpr ⟨s'.1, (instrument_eq_some.mp hs').1, ih hr⟩

/-- What does not depend on the history is put out without it. -/
theorem outputs_instrument {upd : γ → σ → ε → σ → γ} (out : σ → ε → List δ)
    (sg : σ × γ) (es : List ε) :
    outputs (instrument step upd) (fun sg e => out sg.1 e) sg es = outputs step out sg.1 es := by
  induction es generalizing sg with
  | nil => rfl
  | cons e es ih =>
    rw [outputs, outputs, instrument]
    cases step sg.1 e with
    | none => rfl
    | some s' => exact congrArg _ (ih (s', upd sg.2 sg.1 e s'))

/-- Every run has a history. -/
theorem exists_run_instrument {upd : γ → σ → ε → σ → γ} {s t : σ} {es : List ε}
    (h : run step s es = some t) (g : γ) :
    ∃ g', run (instrument step upd) (s, g) es = some (t, g') := by
  induction es generalizing s g with
  | nil =>
    cases h
    exact ⟨g, rfl⟩
  | cons e es ih =>
    obtain ⟨s', hs', hr⟩ := run_cons_eq_some.mp h
    obtain ⟨g', hg'⟩ := ih hr (upd g s e s')
    exact ⟨g', run_cons_eq_some.mpr ⟨(s', upd g s e s'), instrument_eq_some.mpr ⟨hs', rfl⟩, hg'⟩⟩

end Runs
