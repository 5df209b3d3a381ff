import NetworkingCard.Node

/-!
# Edges that are served late

`Node.step` serves an edge at the moment it happens, and whole. On the board an edge only sets its
bit of `EXTI_PR`, and the end of SysTick's timeout only makes its exception pending.
`EXTI4_IRQHandler` runs when nothing else does, one statement after the other, and the line may
change between any two of them. All interrupts have one priority, so no handler interrupts another;
of those that wait, SysTick goes first. The interrupts of TIM2 and TIM4 are served at once, and none
comes between the statements of that handler.

* `LateNode.tells_of_run`: the handler acknowledges before it reads, so no edge is missed: once
  all of them have been served, the monitor knows the level of the line;
* `LateNode.run_iff_late`: as long as no edge falls between the two reads of a handler, a board that
  serves late reaches the same states as one that serves at once.
-/

namespace NetworkingCard

/-- Where `EXTI4_IRQHandler` has got to. -/
inductive HandlerPoint
  /-- the handler is not running -/
  | outside
  /-- before `if (!((*(EXTI_PR)&(1<<4)) != 0))` -/
  | verify
  /-- before `*(EXTI_PR) |= 1<<4` -/
  | acknowledge
  /-- before `resetTimer(TRANSMISSION_TIMEOUT_US)` -/
  | resetTimer
  /-- before `lineState = (GPIOC_BASE->IDR &(1<<4))>>4` -/
  | readLine
  /-- before `updateMonitorState(MS_BUSY)` -/
  | setBusy
  /-- before the receiver's part, which reads the line again -/
  | receive
deriving DecidableEq

/-- A board, bit 4 of `EXTI_PR`, whether SysTick's exception is pending, and where the handler has
got to. -/
structure LateNode where
  node : Node
  extiPr : Bool
  pendSt : Bool
  point : HandlerPoint

/-- What can happen: the line takes its other level, SysTick counts to zero, the processor takes an
exception or goes on with the handler, or, when there is nothing to serve, something else runs. -/
inductive LateEvent
  | edge
  | timeout
  | proceed
  | other (e : Event)
deriving DecidableEq

namespace LateNode

/-- No interrupt waits, and no handler is running. -/
def rest (n : Node) : LateNode := ⟨n, false, false, .outside⟩

/-- The processor: the next exception, or the next statement of `EXTI4_IRQHandler`. -/
def proceed (s : LateNode) : Option LateNode :=
  match s.point with
  | .outside =>
    if s.pendSt then some { s with node := s.node.sysTickHandler, pendSt := false }
    else if s.extiPr then some { s with point := .verify }
    else none
  | .verify => some { s with point := if s.extiPr then .acknowledge else .outside }
  | .acknowledge => some { s with extiPr := false, point := .resetTimer }
  | .resetTimer =>
    some { s with
      node := { s.node with mon := s.node.mon.resetTimer transmissionTimeoutUs }
      point := .readLine }
  | .readLine =>
    some { s with
      node := { s.node with mon := { s.node.mon with lineState := s.node.idr4 } }
      point := .setBusy }
  | .setBusy =>
    some { s with
      node := { s.node with mon := s.node.mon.updateMonitorState .busy }
      point := .receive }
  | .receive =>
    some { s with
      node := { s.node with rx := s.node.rx.edge s.node.idr4 }
      point := .outside }

/-- A main-loop routine or the interrupt of a timer. -/
def isOther : Event → Bool
  | .transmitterUpdate _ _ | .receiverUpdate | .tim2 | .tim4 => true
  | .exti4 _ | .sysTick => false

/-- One event; `none` where it cannot happen. -/
def step (s : LateNode) : LateEvent → Option LateNode
  | .edge => some { s with node := { s.node with idr4 := !s.node.idr4 }, extiPr := true }
  | .timeout => if s.node.mon.stk.enable then some { s with pendSt := true } else none
  | .proceed => s.proceed
  | .other e =>
    if s.point = .outside ∧ s.pendSt = false ∧ s.extiPr = false ∧ isOther e then
      (s.node.step e).map fun n => { s with node := n }
    else none

/-- Execute the events in order. -/
abbrev run (s : LateNode) (es : List LateEvent) : Option LateNode := Runs.run step s es

theorem step_timeout_eq_some {s s' : LateNode} :
    s.step .timeout = some s' ↔ s.node.mon.stk.enable = true ∧ { s with pendSt := true } = s' := by
  rw [step, Option.ite_none_right_eq_some, Option.some.injEq]

theorem step_other_eq_some {s s' : LateNode} {e : Event} :
    s.step (.other e) = some s' ↔ (s.point = .outside ∧ s.pendSt = false ∧ s.extiPr = false ∧
      isOther e) ∧ ∃ n, s.node.step e = some n ∧ { s with node := n } = s' := by
  rw [step, Option.ite_none_right_eq_some, Option.map_eq_some_iff]

/-! ## Every edge is served -/

/-- What the monitor says while no timeout is running is the level of the line. -/
def Tells (mon : Monitor) : Prop :=
  mon.monitorState =
    if mon.stk.enable then .busy else if mon.lineState then .idle else .collision

/-- How far the monitor has got with the last edge, where it is not to be served yet. -/
def Fresh (s : LateNode) : Prop :=
  match s.point with
  | .outside => s.extiPr = false → s.node.mon.lineState = s.node.idr4 ∧ Tells s.node.mon
  | .verify | .acknowledge => s.extiPr = true
  | .resetTimer => True
  | .readLine => s.node.mon.stk.enable = true
  | .setBusy =>
    s.node.mon.stk.enable = true ∧ (s.extiPr = false → s.node.mon.lineState = s.node.idr4)
  | .receive =>
    Tells s.node.mon ∧ (s.extiPr = false → s.node.mon.lineState = s.node.idr4)

theorem tells_sysTickHandler (mon : Monitor) : Tells mon.sysTickHandler := by
  simp [Tells]

theorem frame_other {n n' : Node} {e : Event} (he : isOther e) (hs : n.step e = some n') :
    n'.mon = n.mon ∧ n'.idr4 = n.idr4 := by
  cases e with
  | transmitterUpdate c random => cases hs; exact ⟨rfl, rfl⟩
  | receiverUpdate => cases hs; exact ⟨rfl, rfl⟩
  | tim2 =>
    obtain ⟨_, rfl⟩ := Node.step_tim2_eq_some.mp hs
    exact ⟨rfl, rfl⟩
  | tim4 =>
    obtain ⟨_, rfl⟩ := Node.step_tim4_eq_some.mp hs
    exact ⟨rfl, rfl⟩
  | exti4 level => cases he
  | sysTick => cases he

theorem fresh_edge {s s' : LateNode} (h : s.Fresh) (hs : s.step .edge = some s') : s'.Fresh := by
  cases hs
  unfold Fresh at h ⊢
  cases hpoint : s.point with
  | outside => simp
  | verify => rfl
  | acknowledge => rfl
  | resetTimer => trivial
  | readLine =>
    simp only [hpoint] at h
    exact h
  | setBusy =>
    simp only [hpoint] at h
    exact ⟨h.1, by simp⟩
  | receive =>
    simp only [hpoint] at h
    exact ⟨h.1, by simp⟩

theorem fresh_proceed {s s' : LateNode} (h : s.Fresh) (hs : s.proceed = some s') : s'.Fresh := by
  unfold proceed at hs
  unfold Fresh at h
  cases hpoint : s.point with
  | outside =>
    simp only [hpoint] at hs h
    split at hs
    · cases hs
      intro hpr
      exact ⟨(Monitor.lineState_sysTickHandler _).trans (h hpr).1, tells_sysTickHandler _⟩
    · split at hs
      · next hpr =>
        cases hs
        exact hpr
      · cases hs
  | verify =>
    simp only [hpoint] at hs h
    rw [h, if_pos rfl] at hs
    cases hs
    rfl
  | acknowledge =>
    simp only [hpoint] at hs
    cases hs
    trivial
  | resetTimer =>
    simp only [hpoint] at hs
    cases hs
    rfl
  | readLine =>
    simp only [hpoint] at hs h
    cases hs
    exact ⟨h, fun _ => rfl⟩
  | setBusy =>
    simp only [hpoint] at hs h
    cases hs
    exact ⟨(if_pos h.1).symm, h.2⟩
  | receive =>
    simp only [hpoint] at hs h
    cases hs
    exact fun hpr => ⟨h.2 hpr, h.1⟩

theorem fresh_step (s : LateNode) (e : LateEvent) (s' : LateNode) (h : s.Fresh)
    (hs : s.step e = some s') : s'.Fresh := by
  cases e with
  | edge => exact fresh_edge h hs
  | timeout =>
    obtain ⟨_, rfl⟩ := step_timeout_eq_some.mp hs
    exact h
  | proceed => exact fresh_proceed h hs
  | other e =>
    obtain ⟨⟨hpoint, _, hpr, he⟩, n, hn, rfl⟩ := step_other_eq_some.mp hs
    obtain ⟨hmon, hidr⟩ := frame_other he hn
    unfold Fresh at h ⊢
    simp only [hpoint] at h ⊢
    rwa [hmon, hidr]

/-- Before the first edge nothing is served. -/
theorem untouched_step (s : LateNode) (e : LateEvent) (s' : LateNode)
    (h : s.point = .outside ∧ s.extiPr = false) (he : e ≠ .edge) (hs : s.step e = some s') :
    s'.point = .outside ∧ s'.extiPr = false := by
  obtain ⟨hpoint, hpr⟩ := h
  cases e with
  | edge => exact absurd rfl he
  | timeout =>
    obtain ⟨_, rfl⟩ := step_timeout_eq_some.mp hs
    exact ⟨hpoint, hpr⟩
  | proceed =>
    simp only [step, proceed, hpoint, hpr] at hs
    split at hs
    · cases hs
      exact ⟨rfl, rfl⟩
    · cases hs
  | other e =>
    obtain ⟨_, n, _, rfl⟩ := step_other_eq_some.mp hs
    exact ⟨hpoint, hpr⟩

/-- **No edge is missed.** Whatever the order of edges, timeouts and statements, whenever the line
has changed at least once and no edge waits to be served, the monitor knows the level of the line: it
is busy as long as its timeout is running, and then idle or in collision by that level. -/
theorem tells_of_run {n : Node} {es : List LateEvent} {s : LateNode}
    (hr : (rest n).run es = some s) (hedge : .edge ∈ es) (hpoint : s.point = .outside)
    (hserved : s.extiPr = false) :
    s.node.mon.lineState = s.node.idr4 ∧
      s.node.mon.monitorState =
        if s.node.mon.stk.enable then .busy else if s.node.idr4 then .idle else .collision := by
  obtain ⟨es₁, es₂, rfl, hfirst⟩ := List.eq_append_cons_of_mem hedge
  obtain ⟨s₁, hs₁, hr⟩ := Runs.run_append_eq_some.mp hr
  obtain ⟨s₂, hs₂, hr⟩ := Runs.run_cons_eq_some.mp hr
  have hnone : ∀ e ∈ es₁, e ≠ .edge := fun e he hne => hfirst (hne ▸ he)
  have huntouched : s₁.point = .outside ∧ s₁.extiPr = false :=
    Runs.run_invariant_along untouched_step (s := rest n) ⟨rfl, rfl⟩
      (Runs.along_of_forall (fun _ => hnone) _) hs₁
  -- the first edge is still to be served
  have hfresh : s₂.Fresh := by
    cases hs₂
    unfold Fresh
    simp only [huntouched.1]
    simp
  have hlast := Runs.run_invariant fresh_step hfresh hr
  unfold Fresh at hlast
  simp only [hpoint] at hlast
  obtain ⟨hline, htells⟩ := hlast hserved
  exact ⟨hline, hline ▸ htells⟩

/-- An edge while the handler is between its two reads, served by a second call. -/
theorem tells_of_run_edgeBetweenReads :
    ∃ s, (rest (Node.boot 0xAA 0xBB true true true)).run
        (.edge :: List.replicate 5 .proceed ++ .edge :: List.replicate 9 .proceed) = some s ∧
      s.node.mon.lineState = s.node.idr4 ∧
      s.node.mon.monitorState =
        if s.node.mon.stk.enable then .busy else if s.node.idr4 then .idle else .collision := by
  have hend : ((rest (Node.boot 0xAA 0xBB true true true)).run
      (.edge :: List.replicate 5 .proceed ++ .edge :: List.replicate 9 .proceed)).map
        (fun s => (s.point, s.extiPr)) = some (.outside, false) := by
    decide +kernel
  obtain ⟨s, hr, hs⟩ := Option.map_eq_some_iff.mp hend
  obtain ⟨hpoint, hserved⟩ := Prod.mk.inj hs
  exact ⟨s, hr, tells_of_run hr (by simp) hpoint hserved⟩

/-! ## What late service comes to -/

/-- The event of `Node` that a step completes. -/
def completed (s : LateNode) : LateEvent → List Event
  | .proceed =>
    match s.point with
    | .outside => if s.pendSt then [.sysTick] else []
    | .receive => [.exti4 s.node.idr4]
    | _ => []
  | .other e => [e]
  | _ => []

/-- No edge between the monitor's read of the line and the receiver's. -/
def Apart (s : LateNode) (e : LateEvent) : Prop :=
  e = .edge → s.point ≠ .setBusy ∧ s.point ≠ .receive

/-- What the handler has made of `n` so far, with this level at its first read. -/
def partway (n : Node) (level : Bool) : HandlerPoint → Node
  | .readLine => { n with mon := n.mon.resetTimer transmissionTimeoutUs }
  | .setBusy =>
    { n with mon := { n.mon.resetTimer transmissionTimeoutUs with lineState := level } }
  | .receive => { n with mon := n.mon.edgeIntrr level }
  | _ => n

/-- `n` is the board before the handler that is running; its line may be behind while an edge is to
be served. -/
structure Serves (s : LateNode) (n : Node) : Prop where
  node : s.node = { partway n s.node.idr4 s.point with idr4 := s.node.idr4 }
  enabled : s.pendSt = true → s.node.mon.stk.enable = true
  level : s.point = .outside ∨ s.point = .verify → s.extiPr = false → n.idr4 = s.node.idr4

theorem serves_proceed {s s' : LateNode} {n : Node} (h : s.Serves n) (hs : s.proceed = some s') :
    ∃ n', n.run (completed s .proceed) = some n' ∧ s'.Serves n' := by
  obtain ⟨node, extiPr, pendSt, point⟩ := s
  obtain ⟨hnode, henabled, hlevel⟩ := h
  obtain ⟨level, rfl⟩ : ∃ level, node = { partway n level point with idr4 := level } :=
    ⟨_, hnode⟩
  cases point with
  | outside =>
    simp only [proceed] at hs
    split at hs
    · next hpend =>
      cases hs
      have hn : n.step .sysTick = some n.sysTickHandler :=
        Node.step_sysTick_eq_some.mpr ⟨henabled hpend, rfl⟩
      refine ⟨n.sysTickHandler, ?_, rfl, by simp, hlevel⟩
      show n.run (if pendSt then [.sysTick] else []) = _
      rw [if_pos hpend]
      exact (Runs.run_singleton n Event.sysTick).trans hn
    · next hpend =>
      split at hs
      · next hpr =>
        cases hs
        refine ⟨n, ?_, rfl, henabled, fun _ hclear => absurd (hpr.symm.trans hclear) (by simp)⟩
        show n.run (if pendSt then [.sysTick] else []) = _
        rw [if_neg hpend]
        rfl
      · cases hs
  | verify =>
    simp only [proceed] at hs
    cases hs
    refine ⟨n, rfl, ?_, henabled, fun _ => hlevel (.inr rfl)⟩
    cases extiPr <;> rfl
  | acknowledge =>
    simp only [proceed] at hs
    cases hs
    exact ⟨n, rfl, rfl, henabled, by simp⟩
  | resetTimer =>
    simp only [proceed] at hs
    cases hs
    exact ⟨n, rfl, rfl, fun _ => rfl, by simp⟩
  | readLine =>
    simp only [proceed] at hs
    cases hs
    exact ⟨n, rfl, rfl, henabled, by simp⟩
  | setBusy =>
    simp only [proceed] at hs
    cases hs
    exact ⟨n, rfl, rfl, henabled, by simp⟩
  | receive =>
    simp only [proceed] at hs
    cases hs
    exact ⟨{ n with idr4 := level }.exti4IRQHandler, rfl, rfl, henabled, fun _ _ => rfl⟩

theorem serves_step (s : LateNode) (e : LateEvent) (s' : LateNode) (n : Node) (h : s.Serves n)
    (hapart : s.Apart e) (hs : s.step e = some s') :
    ∃ n', n.run (completed s e) = some n' ∧ s'.Serves n' := by
  cases e with
  | edge =>
    cases hs
    refine ⟨n, rfl, ?_, h.enabled, by simp⟩
    have hnode := h.node
    obtain ⟨hset, hreceive⟩ := hapart rfl
    -- before the monitor's read the level does not matter
    have hpartway : partway n (!s.node.idr4) s.point = partway n s.node.idr4 s.point := by
      unfold partway
      split <;> first | rfl | contradiction
    show { s.node with idr4 := !s.node.idr4 } = _
    rw [hpartway, hnode]
  | timeout =>
    obtain ⟨henable, rfl⟩ := step_timeout_eq_some.mp hs
    exact ⟨n, rfl, h.node, fun _ => henable, h.level⟩
  | proceed => exact serves_proceed h hs
  | other e =>
    obtain ⟨⟨hpoint, hpend, hpr, he⟩, n', hn', rfl⟩ := step_other_eq_some.mp hs
    have hnode : s.node = n := by
      rw [h.node, hpoint, ← h.level (.inl hpoint) hpr]
      rfl
    rw [hnode] at hn'
    refine ⟨n', ?_, ?_, ?_, fun _ _ => rfl⟩
    · exact (Runs.run_singleton n e).trans hn'
    · rw [hpoint]
      rfl
    · simp [hpend]

theorem serves_rest (n : Node) : (rest n).Serves n := ⟨rfl, by simp [rest], fun _ _ => rfl⟩

theorem Serves.eq_of_rest {n n' : Node} (h : (rest n').Serves n) : n = n' := by
  have hnode : n' = { n with idr4 := n'.idr4 } := h.node
  have hlevel : n.idr4 = n'.idr4 := h.level (.inl rfl) rfl
  rw [hnode, ← hlevel]

/-- An edge that waits is served by seven steps of the processor. -/
theorem run_serve (n : Node) :
    (⟨n, true, false, .outside⟩ : LateNode).run (List.replicate 7 .proceed) =
        some (rest n.exti4IRQHandler) ∧
      Runs.outputs step completed ⟨n, true, false, .outside⟩ (List.replicate 7 .proceed) =
        [.exti4 n.idr4] :=
  ⟨rfl, rfl⟩

/-- The line can come to any level before it is served: it changes once or twice. -/
theorem exists_run_edges (n : Node) (level : Bool) :
    ∃ es, Runs.Along step Apart (rest n) es ∧
      (rest n).run es = some ⟨{ n with idr4 := level }, true, false, .outside⟩ ∧
      Runs.outputs step completed (rest n) es = [] := by
  have hedge : ∀ n extiPr, (⟨n, extiPr, false, .outside⟩ : LateNode).Apart .edge := by
    simp [Apart]
  by_cases hlevel : level = n.idr4
  · refine ⟨[.edge, .edge], ⟨hedge n false, fun s hs => ?_⟩, ?_, rfl⟩
    · cases hs
      exact ⟨hedge _ true, fun _ _ => trivial⟩
    · rw [hlevel, ← Bool.not_not n.idr4]
      rfl
  · refine ⟨[.edge], ⟨hedge n false, fun _ _ => trivial⟩, ?_, rfl⟩
    rw [Bool.eq_not.mpr hlevel]
    rfl

/-- What happens at once can happen late as well. -/
theorem exists_run_of_step {n n' : Node} {e : Event} (hs : n.step e = some n') :
    ∃ es, Runs.Along step Apart (rest n) es ∧ (rest n).run es = some (rest n') ∧
      Runs.outputs step completed (rest n) es = [e] := by
  have hother (he : isOther e) : ∃ es, Runs.Along step Apart (rest n) es ∧
      (rest n).run es = some (rest n') ∧ Runs.outputs step completed (rest n) es = [e] := by
    have hlate : (rest n).step (.other e) = some (rest n') :=
      step_other_eq_some.mpr ⟨⟨rfl, rfl, rfl, he⟩, n', hs, rfl⟩
    refine ⟨[.other e], ⟨fun h => (by cases h), fun _ _ => trivial⟩, ?_, ?_⟩
    · exact (Runs.run_singleton _ _).trans hlate
    · rw [Runs.outputs_cons hlate]
      rfl
  cases e with
  | transmitterUpdate c random => exact hother rfl
  | receiverUpdate => exact hother rfl
  | tim2 => exact hother rfl
  | tim4 => exact hother rfl
  | sysTick =>
    obtain ⟨henable, rfl⟩ := Node.step_sysTick_eq_some.mp hs
    have htimeout : (rest n).step .timeout = some ⟨n, false, true, .outside⟩ :=
      step_timeout_eq_some.mpr ⟨henable, rfl⟩
    refine ⟨[.timeout, .proceed], ?_, ?_, ?_⟩
    · exact Runs.along_of_forall (by simp [Apart]) _
    · exact Runs.run_cons_eq_some.mpr ⟨_, htimeout, rfl⟩
    · rw [Runs.outputs_cons htimeout]
      rfl
  | exti4 level =>
    cases hs
    obtain ⟨es, hapart, hr, hout⟩ := exists_run_edges n level
    obtain ⟨hserve, hserved⟩ := run_serve { n with idr4 := level }
    have hproceed : ∀ e ∈ List.replicate 7 LateEvent.proceed, e ≠ .edge := by simp
    refine ⟨es ++ List.replicate 7 .proceed, ?_, ?_, ?_⟩
    · exact hapart.concat hr (Runs.along_of_forall (fun _ e he hne => absurd hne (hproceed e he)) _)
    · exact (Runs.run_append_of_eq_some hr _).trans hserve
    · rw [Runs.outputs_append hr, hout, hserved]
      rfl

/-- **Late service is prompt service.** The runs of a board that serves its interrupts late, in which
no edge falls between the two reads of a handler, lead from rest to rest exactly where the runs of
`Node` lead, by the events that the handlers and routines complete. -/
theorem run_iff_late {n n' : Node} {fs : List Event} :
    n.run fs = some n' ↔ ∃ es, Runs.Along step Apart (rest n) es ∧
      (rest n).run es = some (rest n') ∧ Runs.outputs step completed (rest n) es = fs := by
  constructor
  · intro h
    induction fs generalizing n with
    | nil =>
      cases h
      exact ⟨[], trivial, rfl, rfl⟩
    | cons e fs ih =>
      obtain ⟨n₁, hn₁, hn'⟩ := Runs.run_cons_eq_some.mp h
      obtain ⟨es₁, hapart₁, hr₁, hout₁⟩ := exists_run_of_step hn₁
      obtain ⟨es₂, hapart₂, hr₂, hout₂⟩ := ih hn'
      refine ⟨es₁ ++ es₂, hapart₁.concat hr₁ hapart₂, ?_, ?_⟩
      · exact (Runs.run_append_of_eq_some hr₁ _).trans hr₂
      · rw [Runs.outputs_append hr₁, hout₁, hout₂, List.singleton_append]
  · rintro ⟨es, hapart, hr, rfl⟩
    obtain ⟨n₁, hn₁, hserves⟩ :=
      Runs.run_of_forward_simulation serves_step (serves_rest n) hapart hr
    exact hserves.eq_of_rest ▸ hn₁

end LateNode

end NetworkingCard
