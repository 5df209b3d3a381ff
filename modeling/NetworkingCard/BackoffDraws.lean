import NetworkingCard.Attempts

/-!
# The numbers behind the back-offs

`transmitter_init` seeds the random number generator with `srand(clock(0))`. `clock` asks
`_times`, which is the stub of `syscalls.c`: it fails, whatever the time. So every board has the
same seed, and draws the same slot numbers.

The C library is a parameter: `clock` reports the failure of `_times`, and `rand` depends on the
seed and on the number of earlier calls. `newlib` is the one the firmware is linked with.

* the `k`-th slot number of a board is the same on all boards, in all runs (`draws_of_run`);
* so no boot times and no addresses break a tie between two boards (`not_breaksTies`).
-/

namespace NetworkingCard

/-! ## The seed -/

/-- `struct tms`. -/
structure Tms where
  utime : BitVec 32
  stime : BitVec 32
  cutime : BitVec 32
  cstime : BitVec 32

/-- `_times`: what it returns, and `buf` after it. The stub looks at no clock. -/
def times (_now : ℕ) (buf : Tms) : BitVec 32 × Tms := (-1, buf)

/-- What the firmware uses of the C library. -/
structure CLibrary where
  /-- `clock`, from what `_times` has returned. -/
  clock : BitVec 32 × Tms → BitVec 32
  /-- `rand`, from the seed and the number of earlier calls. -/
  rand : BitVec 32 → ℕ → ℕ
  clock_failed : ∀ buf, clock (-1, buf) = -1

/-- How `rand` of newlib goes on to its next state. -/
def nextState (state : BitVec 64) : BitVec 64 := state * 6364136223846793005 + 1

/-- The C library in `NetworkCard.lst`. -/
def newlib : CLibrary where
  clock t := if t.1 = -1 then -1 else t.2.utime + t.2.stime + t.2.cutime + t.2.cstime
  rand seed calls := (nextState^[calls + 1] (seed.setWidth 64) >>> 32 &&& 0x7fffffff).toNat
  clock_failed _ := if_pos rfl

/-- What a board starts from: the time, the stack where `clock` has its `struct tms`, the
addresses, the mode, and the levels of PC9 and of the line. -/
structure Boot where
  now : ℕ
  buf : Tms
  src : Byte
  dest : Byte
  packetMode : Bool
  pin : Bool
  line : Bool

/-- A board with its random number generator. -/
structure SeededNode where
  node : Node
  seed : BitVec 32
  calls : ℕ

/-- The event with the number that `rand` returns. -/
def Event.withRandom (random : ℕ) : Event → Event
  | .transmitterUpdate c _ => .transmitterUpdate c random
  | .receiverUpdate => .receiverUpdate
  | .tim2 => .tim2
  | .tim4 => .tim4
  | .exti4 level => .exti4 level
  | .sysTick => .sysTick

namespace SeededNode

/-- `main` up to its loop, with `srand(clock(0))`. -/
def boot (lib : CLibrary) (b : Boot) : SeededNode where
  node := Node.boot b.src b.dest b.packetMode b.pin b.line
  seed := lib.clock (times b.now b.buf)
  calls := 0

/-- One event; `rand` is called where a back-off starts. -/
def step (lib : CLibrary) (s : SeededNode) (e : Event) : Option SeededNode :=
  (s.node.step (e.withRandom (lib.rand s.seed s.calls))).map fun n =>
    { s with node := n, calls := if s.node.startsBackoff e then s.calls + 1 else s.calls }

/-- The slot number `N` that `toggleRetransmission` draws, if the event starts a back-off. -/
def slots (lib : CLibrary) (s : SeededNode) (e : Event) : List ℕ :=
  if s.node.startsBackoff e then [lib.rand s.seed s.calls % transmitterNMax] else []

/-- The slot numbers of a run of a board, in order. -/
def draws (lib : CLibrary) (b : Boot) (es : List Event) : List ℕ :=
  Runs.outputs (step lib) (slots lib) (boot lib b) es

/-- Two boards have boot times and addresses for which their `k`-th slot numbers differ, for
some `k`. -/
def BreaksTies (lib : CLibrary) : Prop :=
  ∃ (b b' : Boot) (es es' : List Event) (s s' : SeededNode) (k N N' : ℕ),
    Runs.run (step lib) (boot lib b) es = some s ∧
      Runs.run (step lib) (boot lib b') es' = some s' ∧
      (draws lib b es)[k]? = some N ∧ (draws lib b' es')[k]? = some N' ∧ N ≠ N'

theorem step_eq_some {lib : CLibrary} {s s' : SeededNode} {e : Event} :
    step lib s e = some s' ↔
      s.node.step (e.withRandom (lib.rand s.seed s.calls)) = some s'.node ∧ s'.seed = s.seed ∧
        s'.calls = if s.node.startsBackoff e then s.calls + 1 else s.calls := by
  obtain ⟨node, seed, calls⟩ := s'
  rw [step, Option.map_eq_some_iff]
  constructor
  · rintro ⟨n, hn, heq⟩
    cases heq
    exact ⟨hn, rfl, rfl⟩
  · rintro ⟨hn, rfl, rfl⟩
    exact ⟨node, hn, rfl⟩

/-! ## Where the random number goes -/

/-- Only the start of a back-off depends on the random number. -/
theorem step_withRandom {n : Node} {e : Event} (h : n.startsBackoff e = false) (random : ℕ) :
    n.step (e.withRandom random) = n.step e := by
  cases e with
  | transmitterUpdate c random' =>
    have hnot : (decide (n.mon.getState = .idle) && !n.tx.inTransmission &&
        !n.tx.transmissionComplete) = false := h
    simp only [Event.withRandom, Node.step, Node.transmitterUpdate, Transmitter.mainRoutineUpdate,
      hnot, Bool.false_eq_true, if_false]
  | receiverUpdate => rfl
  | tim2 => rfl
  | tim4 => rfl
  | exti4 level => rfl
  | sysTick => rfl

/-- The slot number is the length of the back-off, in units of `1000 / TRANSMITTER_N_MAX` ms. -/
theorem arr_of_slots {lib : CLibrary} {s s' : SeededNode} {e : Event} {N : ℕ}
    (hs : step lib s e = some s') (hN : slots lib s e = [N]) :
    s'.node.tx.tim2.arr = N * 1000 / transmitterNMax := by
  obtain ⟨hstep, -, -⟩ := step_eq_some.mp hs
  cases hstart : s.node.startsBackoff e with
  | false =>
    rw [slots, hstart] at hN
    cases hN
  | true =>
    rw [slots, if_pos hstart, List.singleton_inj] at hN
    cases e with
    | transmitterUpdate c random =>
      have hstart' : s.node.startsBackoff
          (.transmitterUpdate c (lib.rand s.seed s.calls)) = true := hstart
      have harr := (Node.tim2_of_startsBackoff hstart' hstep).2
      rw [harr, Transmitter.backoff, hN]
    | _ => cases hstart

/-! ## All boards draw the same numbers -/

/-- The seed that `srand` gets when `_times` has failed. -/
def failedSeed : BitVec 32 := -1

/-- The `k`-th slot number. -/
def slot (lib : CLibrary) (k : ℕ) : ℕ := lib.rand failedSeed k % transmitterNMax

theorem seed_boot (lib : CLibrary) (b : Boot) : (boot lib b).seed = failedSeed :=
  lib.clock_failed b.buf

/-- An event adds the slot number that it draws to those drawn before. -/
theorem slots_of_step {lib : CLibrary} {s s' : SeededNode} {e : Event} (h : s.seed = failedSeed)
    (hs : step lib s e = some s') :
    s'.seed = failedSeed ∧
      (List.range s'.calls).map (slot lib) =
        (List.range s.calls).map (slot lib) ++ slots lib s e := by
  obtain ⟨-, hseed, hcalls⟩ := step_eq_some.mp hs
  refine ⟨hseed.trans h, ?_⟩
  rw [hcalls, slots, h]
  cases s.node.startsBackoff e with
  | false => exact (List.append_nil _).symm
  | true =>
    rw [if_pos rfl, if_pos rfl, List.range_succ, List.map_append]
    rfl

/-- The slot numbers of a run depend only on how many have been drawn. -/
theorem draws_of_run {lib : CLibrary} {b : Boot} {es : List Event} {t : SeededNode}
    (hrun : Runs.run (step lib) (boot lib b) es = some t) :
    draws lib b es = (List.range t.calls).map (slot lib) := by
  have hstep : ∀ s e s', s.seed = failedSeed → step lib s e = some s' → s'.seed = failedSeed ∧
      (List.range s'.calls).map (slot lib) =
        (List.range s.calls).map (slot lib) ++ slots lib s e := by
    intro s e s' h hs
    exact slots_of_step h hs
  exact (Runs.log_of_run hstep (seed_boot lib b) hrun).symm

theorem draws_getElem? {lib : CLibrary} {b : Boot} {es : List Event} {t : SeededNode} {k N : ℕ}
    (hrun : Runs.run (step lib) (boot lib b) es = some t)
    (hN : (draws lib b es)[k]? = some N) : N = slot lib k := by
  rw [draws_of_run hrun] at hN
  obtain ⟨hk, rfl⟩ := List.getElem?_eq_some_iff.mp hN
  rw [List.getElem_map, List.getElem_range]

theorem BreaksTies.false {lib : CLibrary} (h : BreaksTies lib) : False := by
  obtain ⟨b, b', es, es', s, s', k, N, N', hrun, hrun', hN, hN', hne⟩ := h
  have hslot := draws_getElem? hrun hN
  have hslot' := draws_getElem? hrun' hN'
  exact hne (hslot.trans hslot'.symm)

/-- **Back-offs break no ties.** Whatever the boot times and the addresses of two boards, and
whatever happens to them, the `k`-th slot numbers of both are the same for every `k`. -/
theorem not_breaksTies (lib : CLibrary) : ¬BreaksTies lib := BreaksTies.false

/-- A board switched on at once. -/
def firstBoot : Boot := ⟨0, ⟨0, 0, 0, 0⟩, 0xAA, 0xBB, true, true, true⟩

/-- A board switched on 7 s later, with other addresses. -/
def secondBoot : Boot := ⟨7000, ⟨3, 0, 0, 0⟩, 0xBB, 0xAA, true, true, true⟩

/-- A collision, a retransmission, and its collision. -/
def twoCollisions : List Event :=
  Node.busyBackoff.take 9 ++ [.transmitterUpdate 0x62 0, .tim2, .tim2, .exti4 false, .sysTick,
    .tim2, .exti4 true, .sysTick, .transmitterUpdate 0x62 0]

/-- Both boards draw 151 and 108. -/
theorem not_breaksTies_twoCollisions :
    (Runs.run (step newlib) (boot newlib firstBoot) twoCollisions).isSome = true ∧
      (Runs.run (step newlib) (boot newlib secondBoot) twoCollisions).isSome = true ∧
      draws newlib firstBoot twoCollisions = [151, 108] ∧
      draws newlib secondBoot twoCollisions = [151, 108] ∧ ¬BreaksTies newlib := by
  refine ⟨?_, ?_, ?_, ?_, BreaksTies.false⟩
  · decide +kernel
  · decide +kernel
  · decide +kernel
  · decide +kernel

end SeededNode

end NetworkingCard
