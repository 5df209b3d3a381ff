import NetworkingCard.ReceiverTheorems
import NetworkingCard.RegisterBoard
import NetworkingCard.TransmitterTheorems

/-!
# The registers refine the board

* `Registers.Via`: which module accesses which registers, and so what each of them leaves alone;
* `Registers.Configured`, what the boot sets up and no access changes;
* `loadTx`, `loadMon` and `loadRx` commute with the program: a routine's accesses do to the words
  what the routine of `Transmitter`, `Monitor` or `Receiver` does to its part of the hardware;
* `RegisterBoard.run_boot`: every run from a reset is a run of `Node`, and the other way round.
-/

namespace NetworkingCard

namespace Registers

variable {m m' : Registers} {t : Transmitter} {r : Receiver} {mon : Monitor} {state : MonitorState}

/-! ## Reading after an access -/

theorem place_tim2 : Tims.tim2.place = some tim2Place := rfl

theorem place_tim4 : Tims.tim4.place = some tim4Place := rfl

/-- The words that the functions of `tim.c` leave alone. -/
theorem timCall_apply (m : Registers) (call : Tims × TimCall) {a : ℕ} (ha : 0x40000C00 ≤ a)
    (hclk : a ≠ rccApb1enr) (hirq : a ≠ iser0) : timCall m call a = m a := by
  have hforeign : ∀ j, Foreign a j := by
    intro j tim place h
    have hbounds := Tims.base_bounds h
    exact ⟨by omega, fun h => absurd h hclk, fun h => absurd h hirq⟩
  exact BitVec.eq_of_getLsbD_eq fun j _ => getLsbD_timCall m (hforeign j) call

theorem exti4Irq_timCall (m : Registers) (call : Tims × TimCall) :
    (timCall m call iser0).getLsbD 10 = (m iser0).getLsbD 10 := by
  apply getLsbD_timCall
  intro tim place h
  rcases Tims.place_eq_some h with ⟨_, rfl⟩ | ⟨_, rfl⟩ | ⟨_, rfl⟩ <;>
    simp [iser0, rccApb1enr]

theorem tim2_timCall (m : Registers) (hidden : ℕ × ℕ) (call : TimCall) :
    timState (timCall m (.tim2, call)) tim2Place hidden =
      call.effect (timState m tim2Place hidden) :=
  timState_timCall m place_tim2 hidden call

theorem tim4_timCall (m : Registers) (hidden : ℕ × ℕ) (call : TimCall) :
    timState (timCall m (.tim4, call)) tim4Place hidden =
      call.effect (timState m tim4Place hidden) :=
  timState_timCall m place_tim4 hidden call

theorem tim4_timCall_tim2 (m : Registers) (hidden : ℕ × ℕ) (call : TimCall) :
    timState (timCall m (.tim2, call)) tim4Place hidden = timState m tim4Place hidden :=
  timState_timCall_of_ne m place_tim4 hidden (by decide) call

theorem tim2_timCall_tim4 (m : Registers) (hidden : ℕ × ℕ) (call : TimCall) :
    timState (timCall m (.tim4, call)) tim2Place hidden = timState m tim2Place hidden :=
  timState_timCall_of_ne m place_tim2 hidden (by decide) call

theorem timState_assign_of_ne (m : Registers) (op : Assign 32) {tim : Tims} {place : TimPlace}
    (h : tim.place = some place) (hidden : ℕ × ℕ) {a : ℕ} (ha : 0x40000C00 ≤ a)
    (hclk : a ≠ rccApb1enr) (hirq : a ≠ iser0) :
    timState (m.assign a op) place hidden = timState m place hidden := by
  rw [timState_assign m h hidden ha, RegisterFile.assign_apply, if_neg hclk.symm,
    RegisterFile.assign_apply, if_neg hirq.symm]
  rfl

end Registers

/-! ## Who accesses what -/

/-- Whether a timer has a clock, and the two bits that let its update event interrupt. -/
def TimState.config (s : TimState) : Bool × Bool × Bool := (s.clockEnable, s.uie, s.irqEnable)

/-- A call of a function of `tim.c`, or an assignment to a word. -/
inductive Access
  | call (tim : Tims) (f : TimCall)
  | word (a : ℕ) (op : Assign 32)

namespace Access

/-- What the transmitter does at run time: it programs TIM2 and drives pins of `GPIOC`. -/
def Tx : Access → Prop
  | .call tim f => tim = .tim2 ∧ ∀ s, (f.effect s).config = s.config
  | .word a _ => a = odrC

/-- What the monitor does: it shows its state and restarts or stops SysTick. -/
def Mon : Access → Prop
  | .call _ _ => False
  | .word a op => a ∈ [odrB, stkLoad, stkVal] ∨
      a = stkCtrl ∧ (op = .and (~~~(1#32 <<< 0)) ∨
        op = .or (1#32 <<< 0 ||| 1#32 <<< 2 ||| 1#32 <<< 1))

/-- What the receiver does: it programs TIM4, acknowledges EXTI4 and toggles pins other than
PC9. -/
def Rx : Access → Prop
  | .call tim f => tim = .tim4 ∧ ∀ s, (f.effect s).config = s.config
  | .word a op => a = extiPr ∨ a = odrC ∧ ∀ x, (op.apply x).getLsbD 9 = x.getLsbD 9

/-- What the line does: it sets the level of PC4. -/
def Line : Access → Prop
  | .call _ _ => False
  | .word a _ => a = idrC

end Access

namespace Registers

/-- The words after an access. -/
def access (m : Registers) : Access → Registers
  | .call tim f => m.timCall (tim, f)
  | .word a op => m.assign a op

/-- `m'` is what accesses of this kind make of `m`. -/
def Via (allowed : Access → Prop) : Registers → Registers → Prop :=
  Relation.ReflTransGen fun m m' => ∃ x, allowed x ∧ m.access x = m'

namespace Via

variable {allowed : Access → Prop}

theorem refl : Via allowed m m := Relation.ReflTransGen.refl

theorem trans {m'' : Registers} (h : Via allowed m m') (h' : Via allowed m' m'') :
    Via allowed m m'' := Relation.ReflTransGen.trans h h'

theorem call (h : Via allowed m m') {tim : Tims} {f : TimCall} (hx : allowed (.call tim f)) :
    Via allowed m (m'.timCall (tim, f)) :=
  Relation.ReflTransGen.tail h ⟨_, hx, rfl⟩

theorem word (h : Via allowed m m') {a : ℕ} {op : Assign 32} (hx : allowed (.word a op)) :
    Via allowed m (m'.assign a op) :=
  Relation.ReflTransGen.tail h ⟨_, hx, rfl⟩

/-- What every access keeps is kept. -/
theorem keeps {P : Registers → Prop} (h : Via allowed m m')
    (hkeep : ∀ m x, allowed x → P m → P (m.access x)) (hm : P m) : P m' := by
  induction h with
  | refl => exact hm
  | tail _ hstep ih =>
    obtain ⟨x, hx, rfl⟩ := hstep
    exact hkeep _ x hx ih

end Via

/-! ### The transmitter -/

theorem via_startTransmission (m : Registers) : Via Access.Tx m m.startTransmission :=
  (Via.refl.call ⟨rfl, fun _ => rfl⟩).call ⟨rfl, fun _ => rfl⟩

theorem via_stopTransmission (m : Registers) : Via Access.Tx m m.stopTransmission := by
  have hpin : Via Access.Tx m (m.assign odrC (.or (1#32 <<< 9))) := Via.refl.word rfl
  exact hpin.call ⟨rfl, fun _ => rfl⟩

theorem via_toggleRetransmission (m : Registers) (random : ℕ) (retransmission : Bool) :
    Via Access.Tx m (m.toggleRetransmission random retransmission) := by
  have hstop : Via Access.Tx m (m.timCall (.tim2, .stopCounter)) :=
    Via.refl.call ⟨rfl, fun _ => rfl⟩
  unfold toggleRetransmission
  dsimp only
  split
  · exact ((hstop.call ⟨rfl, fun _ => rfl⟩).call ⟨rfl, fun _ => rfl⟩).call ⟨rfl, fun _ => rfl⟩
  · exact ((hstop.call ⟨rfl, fun _ => rfl⟩).call ⟨rfl, fun _ => rfl⟩).call ⟨rfl, fun _ => rfl⟩

theorem via_transmitterUpdate (m : Registers) (t : Transmitter) (state : MonitorState) (c : Byte)
    (random : ℕ) : Via Access.Tx m (m.transmitterUpdate t state c random) := by
  unfold transmitterUpdate
  dsimp only
  split
  · exact .refl
  · split
    · split
      · exact via_startTransmission m
      · exact .refl
    · split
      · exact (via_toggleRetransmission m random true).trans (via_startTransmission _)
      · exact .refl

theorem via_transmitBit (m : Registers) (t : Transmitter) : Via Access.Tx m (m.transmitBit t) := by
  have hsync : Via Access.Tx m
      (if t.currByte = 0 && t.currBit = 0 then m.assign odrC (.or (1#32 <<< 5)) else m) := by
    split
    · exact Via.refl.word rfl
    · exact .refl
  unfold transmitBit
  dsimp only
  split
  · exact hsync.word rfl
  · exact hsync.word rfl

theorem via_tim2IRQHandler (m : Registers) (t : Transmitter) (state : MonitorState) :
    Via Access.Tx m (m.tim2IRQHandler t state) := by
  have hclear : Via Access.Tx m (m.timCall (.tim2, .clearOutputCmpModePendingFlag)) :=
    Via.refl.call ⟨rfl, fun _ => rfl⟩
  have hend : Via Access.Tx m
      (m.timCall (.tim2, .clearOutputCmpModePendingFlag)).endTransmission :=
    (hclear.trans (via_stopTransmission _)).word rfl
  unfold tim2IRQHandler
  dsimp only
  split
  · exact (hclear.trans (via_toggleRetransmission _ 0 false)).trans (via_startTransmission _)
  · split
    · exact hend
    · split
      · exact hend
      · exact hclear.trans (via_transmitBit _ t)

/-! ### The monitor -/

theorem via_updateMonitorState (m : Registers) (newState : MonitorState) :
    Via Access.Mon m (m.updateMonitorState newState) :=
  (Via.refl.word (.inl (by decide))).word (.inl (by decide))

theorem via_resetTimer (m : Registers) (tUs : ℕ) : Via Access.Mon m (m.resetTimer tUs) := by
  have hload : stkLoad ∈ [odrB, stkLoad, stkVal] := by decide
  have hval : stkVal ∈ [odrB, stkLoad, stkVal] := by decide
  exact (((Via.refl.word (.inr ⟨rfl, .inl rfl⟩)).word (.inl hload)).word (.inl hval)).word
    (.inr ⟨rfl, .inr rfl⟩)

theorem via_monitorEdgeIntrr (m : Registers) : Via Access.Mon m m.monitorEdgeIntrr :=
  (via_resetTimer m _).trans (via_updateMonitorState _ .busy)

theorem via_sysTickHandler (m : Registers) (mon : Monitor) :
    Via Access.Mon m (m.sysTickHandler mon) := by
  have hstop : Via Access.Mon m (m.assign stkCtrl (.and (~~~(1#32 <<< 0)))) :=
    Via.refl.word (.inr ⟨rfl, .inl rfl⟩)
  unfold sysTickHandler
  dsimp only
  split
  · exact hstop.trans (via_updateMonitorState _ .idle)
  · exact hstop.trans (via_updateMonitorState _ .collision)

/-! ### The receiver -/

theorem via_receiverUpdate (m : Registers) (r : Receiver) (state : MonitorState) :
    Via Access.Rx m (m.receiverUpdate r state) := by
  have hstop : Via Access.Rx m (m.timCall (.tim4, .stopCounter)) :=
    Via.refl.call ⟨rfl, fun _ => rfl⟩
  unfold receiverUpdate
  dsimp only
  generalize (if state = .idle then r.idleReset else r) = r'
  split
  · exact hstop
  · exact .refl

theorem via_tim4IRQHandler (m : Registers) : Via Access.Rx m m.tim4IRQHandler := by
  have hclear : Via Access.Rx m (m.timCall (.tim4, .clearOutputCmpModePendingFlag)) :=
    Via.refl.call ⟨rfl, fun _ => rfl⟩
  have htoggle : ∀ x : BitVec 32,
      ((Assign.xor (1#32 <<< 8)).apply x).getLsbD 9 = x.getLsbD 9 := by
    intro x
    rw [Assign.apply, BitVec.getLsbD_toggleBit _ (by decide), if_neg (by decide)]
  unfold tim4IRQHandler
  exact (hclear.word (.inr ⟨rfl, htoggle⟩)).call ⟨rfl, fun _ => rfl⟩

theorem via_edge (m : Registers) (r : Receiver) : Via Access.Rx m (m.edge r) := by
  have hrestart : Via Access.Rx m ((m.timCall (.tim4, .clearCnt)).timCall (.tim4, .startCounter)) :=
    (Via.refl.call ⟨rfl, fun _ => rfl⟩).call ⟨rfl, fun _ => rfl⟩
  have htoggle : ∀ x : BitVec 32,
      ((Assign.xor (1#32 <<< 6)).apply x).getLsbD 9 = x.getLsbD 9 := by
    intro x
    rw [Assign.apply, BitVec.getLsbD_toggleBit _ (by decide), if_neg (by decide)]
  unfold edge
  split
  · exact hrestart.word (.inr ⟨rfl, htoggle⟩)
  · exact Via.refl.call ⟨rfl, fun _ => rfl⟩

theorem via_acknowledge (m : Registers) (value : BitVec 32) :
    Via Access.Rx m (m.writeExtiPr value) :=
  Via.refl.word (.inl rfl)

/-! ### What accesses leave alone -/

namespace Via

variable {allowed : Access → Prop}

theorem timState_eq (h : Via allowed m m') {tim : Tims} {place : TimPlace}
    (hplace : tim.place = some place) (hcall : ∀ tim' f, allowed (.call tim' f) → tim' ≠ tim)
    (hword : ∀ a op, allowed (.word a op) → 0x40000C00 ≤ a ∧ a ≠ rccApb1enr ∧ a ≠ iser0)
    (hidden : ℕ × ℕ) : timState m' place hidden = timState m place hidden := by
  apply h.keeps (P := fun m' => timState m' place hidden = timState m place hidden)
  · intro m' x hx hm'
    rw [← hm']
    cases x with
    | call tim' f => exact timState_timCall_of_ne m' hplace hidden (hcall tim' f hx) f
    | word a op =>
      obtain ⟨hge, hclk, hirq⟩ := hword a op hx
      exact timState_assign_of_ne m' op hplace hidden hge hclk hirq
  · rfl

theorem getLsbD_eq (h : Via allowed m m') {a j : ℕ} (hge : 0x40000C00 ≤ a)
    (hclk : a ≠ rccApb1enr) (hirq : a ≠ iser0)
    (hword : ∀ op, allowed (.word a op) → ∀ x, (op.apply x).getLsbD j = x.getLsbD j) :
    (m' a).getLsbD j = (m a).getLsbD j := by
  apply h.keeps (P := fun m' => (m' a).getLsbD j = (m a).getLsbD j)
  · intro m' x hx hm'
    rw [← hm']
    cases x with
    | call tim f =>
      show (timCall m' (tim, f) a).getLsbD j = _
      rw [timCall_apply m' _ hge hclk hirq]
    | word b op =>
      show (m'.assign b op a).getLsbD j = _
      rw [RegisterFile.assign_apply]
      split
      · next heq => exact hword op (heq ▸ hx) _
      · rfl
  · rfl

theorem apply_eq (h : Via allowed m m') {a : ℕ} (hge : 0x40000C00 ≤ a) (hclk : a ≠ rccApb1enr)
    (hirq : a ≠ iser0) (hword : ∀ op, ¬ allowed (.word a op)) : m' a = m a :=
  BitVec.eq_of_getLsbD_eq fun _ _ => h.getLsbD_eq hge hclk hirq fun op hop => absurd hop (hword op)

end Via

/-- The transmitter leaves the other two modules' peripherals alone. -/
theorem Via.frame_tx (h : Via Access.Tx m m') (mon : Monitor) (r : Receiver) (hidden4 : ℕ × ℕ) :
    m'.loadMon mon = m.loadMon mon ∧ m'.loadRx hidden4 r = m.loadRx hidden4 r ∧
      m' idrC = m idrC := by
  have hword : ∀ a ∈ [odrB, idrC, stkCtrl, stkLoad, stkVal], m' a = m a := by
    intro a ha
    have hrange : ∀ a ∈ [odrB, idrC, stkCtrl, stkLoad, stkVal],
        0x40000C00 ≤ a ∧ a ≠ rccApb1enr ∧ a ≠ iser0 ∧ a ≠ odrC := by decide
    obtain ⟨hge, hclk, hirq, hodrC⟩ := hrange a ha
    exact h.apply_eq hge hclk hirq fun _ => hodrC
  have htim4 := h.timState_eq place_tim4 (fun _ _ hx => by rw [hx.1]; decide)
    (fun _ _ hx => by rw [show _ = odrC from hx]; decide) hidden4
  refine ⟨?_, ?_, hword _ (by decide)⟩
  · rw [loadMon, loadMon, hword odrB (by decide), hword stkCtrl (by decide),
      hword stkLoad (by decide), hword stkVal (by decide)]
  · rw [loadRx, loadRx, htim4]

/-- The monitor leaves the other two modules' peripherals alone. -/
theorem Via.frame_mon (h : Via Access.Mon m m') (t : Transmitter) (r : Receiver)
    (hidden2 hidden4 : ℕ × ℕ) :
    m'.loadTx hidden2 t = m.loadTx hidden2 t ∧ m'.loadRx hidden4 r = m.loadRx hidden4 r ∧
      m' idrC = m idrC := by
  have hrange : ∀ a op, Access.Mon (.word a op) → 0x40000C00 ≤ a ∧ a ≠ rccApb1enr ∧ a ≠ iser0 := by
    have hlist : ∀ a ∈ [odrB, stkLoad, stkVal],
        0x40000C00 ≤ a ∧ a ≠ rccApb1enr ∧ a ≠ iser0 := by decide
    rintro a op (ha | ⟨rfl, _⟩)
    · exact hlist a ha
    · decide
  have hword : ∀ a ∈ [odrC, idrC], m' a = m a := by
    intro a ha
    have hother : ∀ a ∈ [odrC, idrC], 0x40000C00 ≤ a ∧ a ≠ rccApb1enr ∧ a ≠ iser0 ∧
        a ∉ [odrB, stkLoad, stkVal] ∧ a ≠ stkCtrl := by decide
    obtain ⟨hge, hclk, hirq, hlist, hstk⟩ := hother a ha
    exact h.apply_eq hge hclk hirq fun _ hx => hx.elim hlist fun hx => hstk hx.1
  have htim2 := h.timState_eq place_tim2 (fun _ _ hx => hx.elim) hrange hidden2
  have htim4 := h.timState_eq place_tim4 (fun _ _ hx => hx.elim) hrange hidden4
  refine ⟨?_, ?_, hword _ (by decide)⟩
  · rw [loadTx, loadTx, htim2, hword odrC (by decide)]
  · rw [loadRx, loadRx, htim4]

/-- The receiver leaves the other two modules' peripherals alone. -/
theorem Via.frame_rx (h : Via Access.Rx m m') (t : Transmitter) (mon : Monitor)
    (hidden2 : ℕ × ℕ) :
    m'.loadTx hidden2 t = m.loadTx hidden2 t ∧ m'.loadMon mon = m.loadMon mon ∧
      m' idrC = m idrC := by
  have hword : ∀ a ∈ [odrB, idrC, stkCtrl, stkLoad, stkVal], m' a = m a := by
    intro a ha
    have hrange : ∀ a ∈ [odrB, idrC, stkCtrl, stkLoad, stkVal],
        0x40000C00 ≤ a ∧ a ≠ rccApb1enr ∧ a ≠ iser0 ∧ a ≠ extiPr ∧ a ≠ odrC := by decide
    obtain ⟨hge, hclk, hirq, hextiPr, hodrC⟩ := hrange a ha
    exact h.apply_eq hge hclk hirq fun _ hx => hx.elim hextiPr fun hx => hodrC hx.1
  have htim2 := h.timState_eq place_tim2 (fun _ _ hx => by rw [hx.1]; decide)
    (fun _ _ hx => by rcases hx with rfl | ⟨rfl, _⟩ <;> decide) hidden2
  have hpin : (m' odrC).getLsbD 9 = (m odrC).getLsbD 9 := by
    apply h.getLsbD_eq (by decide) (by decide) (by decide)
    rintro op (hx | ⟨_, hx⟩)
    · exact absurd hx (by decide)
    · exact hx
  refine ⟨?_, ?_, hword _ (by decide)⟩
  · rw [loadTx, loadTx, htim2, hpin]
  · rw [loadMon, loadMon, hword odrB (by decide), hword stkCtrl (by decide),
      hword stkLoad (by decide), hword stkVal (by decide)]

/-! ### The configuration -/

/-- The priority of an interrupt, in `NVIC_IPR0` and the words after it. -/
def priority (m : Registers) (irq : ℕ) : BitVec 32 :=
  m (0xE000E400 + 4 * (irq / 4)) >>> (8 * (irq % 4)) &&& 0xFF#32

/-- The priority of SysTick, in a word that the program does not write. -/
def sysTickPriority (m : Registers) : BitVec 32 := m 0xE000ED20 >>> 24

/-- The words are as the program needs them: TIM2 and TIM4 have a clock and interrupt, PC4 is an
input whose edges interrupt, PC9 and the pins of the LEDs are outputs, a running SysTick
interrupts, and no interrupt has priority over another. -/
structure Configured (m : Registers) : Prop where
  tim2 : (timState m tim2Place (0, 0)).config = (true, true, true)
  tim4 : (timState m tim4Place (0, 0)).config = (true, true, true)
  pc4 : m moderC &&& 0b11#32 <<< 8 = 0
  pc9 : m moderC &&& 0b11#32 <<< 18 = 0b01#32 <<< 18
  leds : m moderB &&& 0b111111#32 <<< 26 = 0b010101#32 <<< 26
  exticr2 : m syscfgExticr2 &&& 0b1111#32 = 0b0010#32
  rising : (m extiRtsr).getLsbD 4 = true
  falling : (m extiFtsr).getLsbD 4 = true
  unmasked : (m extiImr).getLsbD 4 = true
  exti4Irq : (m iser0).getLsbD 10 = true
  tickint : (m stkCtrl).getLsbD 0 = true → (m stkCtrl).getLsbD 1 = true
  priorities : m.priority 10 = m.priority 28 ∧ m.priority 30 = m.priority 28 ∧
    m.sysTickPriority = m.priority 28

namespace Configured

/-- The words that are not written at run time. -/
def fixed : List ℕ :=
  [moderC, moderB, syscfgExticr2, extiRtsr, extiFtsr, extiImr, 0xE000E408, 0xE000E41C, 0xE000ED20]

theorem of_kept {m' : Registers} (h : Configured m)
    (htim2 : (timState m' tim2Place (0, 0)).config = (timState m tim2Place (0, 0)).config)
    (htim4 : (timState m' tim4Place (0, 0)).config = (timState m tim4Place (0, 0)).config)
    (hfixed : ∀ a ∈ fixed, m' a = m a)
    (hirq : (m' iser0).getLsbD 10 = (m iser0).getLsbD 10)
    (hstk : (m' stkCtrl).getLsbD 0 = true → (m' stkCtrl).getLsbD 1 = true) : Configured m' := by
  simp only [fixed, List.forall_mem_cons] at hfixed
  obtain ⟨hmoderC, hmoderB, hexticr2, hrtsr, hftsr, himr, hipr2, hipr7, hshpr3, _⟩ := hfixed
  have hpriority : m'.priority 10 = m.priority 10 ∧ m'.priority 28 = m.priority 28 ∧
      m'.priority 30 = m.priority 30 ∧ m'.sysTickPriority = m.sysTickPriority := by
    simp only [priority, sysTickPriority, Nat.reduceDiv, Nat.reduceMod, Nat.reduceMul,
      Nat.reduceAdd, hipr2, hipr7, hshpr3, and_self]
  obtain ⟨h10, h28, h30, hsysTick⟩ := hpriority
  constructor
  case tim2 => exact htim2.trans h.tim2
  case tim4 => exact htim4.trans h.tim4
  case pc4 => exact hmoderC ▸ h.pc4
  case pc9 => exact hmoderC ▸ h.pc9
  case leds => exact hmoderB ▸ h.leds
  case exticr2 => exact hexticr2 ▸ h.exticr2
  case rising => exact hrtsr ▸ h.rising
  case falling => exact hftsr ▸ h.falling
  case unmasked => exact himr ▸ h.unmasked
  case exti4Irq => exact hirq.trans h.exti4Irq
  case tickint => exact hstk
  case priorities =>
    rw [h10, h28, h30, hsysTick]
    exact h.priorities

/-- No access of the program changes the configuration. -/
theorem access (h : Configured m) {x : Access} (hx : x.Tx ∨ x.Mon ∨ x.Rx ∨ x.Line) :
    Configured (m.access x) := by
  have hother : ∀ a ∈ [odrB, odrC, idrC, extiPr, stkLoad, stkVal, stkCtrl],
      0x40000C00 ≤ a ∧ a ≠ rccApb1enr ∧ a ≠ iser0 ∧ a ∉ fixed := by decide
  have hfixed : ∀ a ∈ fixed, 0x40000C00 ≤ a ∧ a ≠ rccApb1enr ∧ a ≠ iser0 := by decide
  cases x with
  | call tim f =>
    have hconfig : ∀ s, (f.effect s).config = s.config := by
      rcases hx with hx | hx | hx | hx
      · exact hx.2
      · exact hx.elim
      · exact hx.2
      · exact hx.elim
    have htim : ∀ {tim' : Tims} {place : TimPlace}, tim'.place = some place →
        (timState (m.timCall (tim, f)) place (0, 0)).config =
          (timState m place (0, 0)).config := by
      intro tim' place hplace
      by_cases hself : tim = tim'
      · rw [hself, timState_timCall m hplace, hconfig]
      · rw [timState_timCall_of_ne m hplace (0, 0) hself]
    apply h.of_kept (htim place_tim2) (htim place_tim4)
    · intro a ha
      obtain ⟨hge, hclk, hirq⟩ := hfixed a ha
      exact timCall_apply m _ hge hclk hirq
    · exact exti4Irq_timCall m _
    · show (m.timCall (tim, f) stkCtrl).getLsbD 0 = true →
        (m.timCall (tim, f) stkCtrl).getLsbD 1 = true
      rw [timCall_apply m _ (by decide) (by decide) (by decide)]
      exact h.tickint
  | word a op =>
    have ha : a ∈ [odrB, odrC, idrC, extiPr, stkLoad, stkVal, stkCtrl] := by
      rcases hx with rfl | (hx | ⟨rfl, _⟩) | (rfl | ⟨rfl, _⟩) | rfl
      · decide
      · revert a
        decide
      · decide
      · decide
      · decide
      · decide
    obtain ⟨hge, hclk, hirq, hnot⟩ := hother a ha
    apply h.of_kept
    · rw [Registers.access, timState_assign_of_ne m op place_tim2 (0, 0) hge hclk hirq]
    · rw [Registers.access, timState_assign_of_ne m op place_tim4 (0, 0) hge hclk hirq]
    · intro b hb
      have hne : b ≠ a := fun heq => hnot (heq ▸ hb)
      rw [Registers.access, RegisterFile.assign_apply, if_neg hne]
    · rw [Registers.access, RegisterFile.assign_apply, if_neg hirq.symm]
    · show (m.assign a op stkCtrl).getLsbD 0 = true → (m.assign a op stkCtrl).getLsbD 1 = true
      rw [RegisterFile.assign_apply]
      split
      · next hstk =>
        obtain rfl | rfl : op = .and (~~~(1#32 <<< 0)) ∨
            op = .or (1#32 <<< 0 ||| 1#32 <<< 2 ||| 1#32 <<< 1) := by
          subst hstk
          rcases hx with hx | (hx | ⟨_, hx⟩) | (hx | ⟨hx, _⟩) | hx
          · exact absurd (show stkCtrl = odrC from hx) (by decide)
          · exact absurd hx (by decide)
          · exact hx
          · exact absurd hx (by decide)
          · exact absurd hx (by decide)
          · exact absurd (show stkCtrl = idrC from hx) (by decide)
        · rw [Assign.apply, BitVec.getLsbD_clearBit, if_pos rfl]
          exact fun h => Bool.noConfusion h
        · intro _
          simp [Assign.apply]
      · exact h.tickint

end Configured

theorem Via.configured {allowed : Access → Prop} (h : Via allowed m m')
    (hallowed : ∀ x, allowed x → x.Tx ∨ x.Mon ∨ x.Rx ∨ x.Line) (hm : Configured m) : Configured m' :=
  h.keeps (fun _ x hx hm => hm.access (hallowed x hx)) hm

/-! ## The transmitter -/

theorem loadTx_startTransmission (m : Registers) (hidden2 : ℕ × ℕ) (t : Transmitter) :
    m.startTransmission.loadTx hidden2 t.startTransmission =
      (m.loadTx hidden2 t).startTransmission := by
  simp +decide only [loadTx, Registers.startTransmission, Transmitter.startTransmission,
    tim2_timCall, timCall_apply, TimCall.effect]

theorem loadTx_stopTransmission (m : Registers) (hidden2 : ℕ × ℕ) (t : Transmitter) :
    m.stopTransmission.loadTx hidden2 t.stopTransmission =
      (m.loadTx hidden2 t).stopTransmission := by
  simp +decide only [loadTx, Registers.stopTransmission, Transmitter.stopTransmission,
    tim2_timCall, timCall_apply, TimCall.effect, RegisterFile.assign_apply,
    timState_assign_of_ne m _ place_tim2, if_true, Assign.apply, BitVec.getLsbD_setBit]

theorem toNat_backoff (random : ℕ) :
    (BitVec.ofNat 32 (Transmitter.backoff random)).toNat = Transmitter.backoff random := by
  rw [BitVec.toNat_ofNat, Nat.mod_eq_of_lt]
  unfold Transmitter.backoff transmitterNMax
  omega

theorem loadTx_toggleRetransmission (m : Registers) (hidden2 : ℕ × ℕ) (t : Transmitter)
    (random : ℕ) (retransmission : Bool) :
    (m.toggleRetransmission random retransmission).loadTx hidden2
        (t.toggleRetransmission random retransmission) =
      (m.loadTx hidden2 t).toggleRetransmission random retransmission := by
  cases retransmission with
  | true =>
    simp +decide only [loadTx, Registers.toggleRetransmission, Transmitter.toggleRetransmission,
      Transmitter.printf, tim2_timCall, timCall_apply, TimCall.effect, if_true, toNat_backoff]
    rfl
  | false =>
    simp +decide only [loadTx, Registers.toggleRetransmission, Transmitter.toggleRetransmission,
      tim2_timCall, timCall_apply, TimCall.effect, if_false]
    rfl

theorem loadTx_readChar (m : Registers) (hidden2 : ℕ × ℕ) (t : Transmitter) (c : Byte) :
    m.loadTx hidden2 (t.readChar c) = (m.loadTx hidden2 t).readChar c := by
  by_cases hc : c = carriageReturn
  · by_cases hs : strcmpEqual (t.dataBuf.setIfInBounds t.dataCur 0).toList
        [0, 0x65, 0, 0x70, 0] = true
    · simp only [Transmitter.readChar, loadTx, hc, hs, if_true]
    · simp only [Transmitter.readChar, loadTx, hc, hs, if_true, if_false, Bool.false_eq_true]
  · by_cases hd : t.dataCur < phMsgSize - 1
    · simp only [Transmitter.readChar, loadTx, hc, hd, if_true, if_false]
    · simp only [Transmitter.readChar, loadTx, hc, hd, if_false]

theorem loadTx_transmitRaw (m : Registers) (hidden2 : ℕ × ℕ) (t : Transmitter) :
    m.loadTx hidden2 t.transmitRaw = (m.loadTx hidden2 t).transmitRaw := by
  by_cases hd : t.dataCur < phMsgSize - 1
  · simp only [Transmitter.transmitRaw, Transmitter.printf, loadTx, hd, if_true]
  · simp only [Transmitter.transmitRaw, Transmitter.printf, loadTx, hd, if_false]

theorem createPacket_loadTx (m : Registers) (hidden2 : ℕ × ℕ) (t : Transmitter) :
    (m.loadTx hidden2 t).createPacket = t.createPacket := by
  unfold Transmitter.createPacket
  rfl

theorem loadTx_transmitPacket (m : Registers) (hidden2 : ℕ × ℕ) (t : Transmitter) :
    m.loadTx hidden2 t.transmitPacket = (m.loadTx hidden2 t).transmitPacket := by
  unfold Transmitter.transmitPacket
  rw [createPacket_loadTx]
  simp only [Transmitter.printf, loadTx]

theorem loadTx_transmitData (m : Registers) (hidden2 : ℕ × ℕ) (t : Transmitter) :
    m.startTransmission.loadTx hidden2 t.transmitData = (m.loadTx hidden2 t).transmitData := by
  have hbranch : ∀ t : Transmitter,
      m.loadTx hidden2 (if t.packetMode then t.transmitPacket else t.transmitRaw) =
        if t.packetMode then (m.loadTx hidden2 t).transmitPacket
          else (m.loadTx hidden2 t).transmitRaw := by
    intro t
    split
    · exact loadTx_transmitPacket m hidden2 t
    · exact loadTx_transmitRaw m hidden2 t
  have hloaded := hbranch { t with
    currByte := 0, gotMessage := false, transBuf := Ringbuffer.reset t.transBuf }
  exact (loadTx_startTransmission m hidden2 _).trans (congrArg (fun t : Transmitter =>
    { t with dataBuf := t.dataBuf.setIfInBounds 0 0, dataCur := 0 }.startTransmission) hloaded)

theorem loadTx_transmitterUpdate (m : Registers) (hidden2 : ℕ × ℕ) (t : Transmitter)
    (state : MonitorState) (c : Byte) (random : ℕ) :
    (m.transmitterUpdate t state c random).loadTx hidden2 (t.mainRoutineUpdate state c random) =
      (m.loadTx hidden2 t).mainRoutineUpdate state c random := by
  unfold Registers.transmitterUpdate Transmitter.mainRoutineUpdate
  dsimp only
  rw [← loadTx_readChar]
  show _ = if t.inTransmission && t.transmissionComplete then m.loadTx hidden2 t
    else if !t.inTransmission && t.transmissionComplete then
      if state = .idle && !(t.readChar c).inTransmission && (t.readChar c).gotMessage then
        (m.loadTx hidden2 (t.readChar c)).transmitData
      else m.loadTx hidden2 (t.readChar c)
    else if state = .idle && !t.inTransmission && !t.transmissionComplete then
      (m.loadTx hidden2 t).retransmit random
    else m.loadTx hidden2 t
  split
  · rfl
  · split
    · split
      · exact loadTx_transmitData m hidden2 _
      · rfl
    · split
      · unfold Transmitter.retransmit
        dsimp only
        rw [loadTx_startTransmission, loadTx_toggleRetransmission]
        rfl
      · rfl

end Registers

/-- The transmitter when its interrupt handler has cleared the flag. -/
def Transmitter.acknowledge (t : Transmitter) : Transmitter :=
  { t with tim2 := t.tim2.clearOutputCmpModePendingFlag }

namespace Registers

theorem loadTx_acknowledge (m : Registers) (hidden2 : ℕ × ℕ) (t : Transmitter) :
    (m.timCall (.tim2, .clearOutputCmpModePendingFlag)).loadTx hidden2 t.acknowledge =
      (m.loadTx hidden2 t).acknowledge := by
  simp +decide only [loadTx, Transmitter.acknowledge, tim2_timCall, timCall_apply, TimCall.effect]

theorem loadTx_ite (c : Prop) [Decidable c] (m m' : Registers) (hidden2 : ℕ × ℕ)
    (t t' : Transmitter) :
    loadTx (if c then m else m') hidden2 (if c then t else t') =
      if c then m.loadTx hidden2 t else m'.loadTx hidden2 t' := by
  split
  · rfl
  · rfl

/-- A write to the other pins of `GPIOC`. -/
theorem loadTx_assign_odrC (m : Registers) (hidden2 : ℕ × ℕ) (t : Transmitter) (op : Assign 32) :
    loadTx (m.assign odrC op) hidden2 t =
      { m.loadTx hidden2 t with pin := (op.apply (m odrC)).getLsbD 9 } := by
  simp +decide only [loadTx, RegisterFile.assign_apply, timState_assign_of_ne m op place_tim2,
    if_true]

theorem loadTx_endTransmission (m : Registers) (hidden2 : ℕ × ℕ) (t : Transmitter) :
    m.endTransmission.loadTx hidden2 t.stopTransmission =
      (m.loadTx hidden2 t).stopTransmission := by
  rw [endTransmission, loadTx_assign_odrC, Assign.apply, BitVec.getLsbD_clearBit,
    if_neg (by decide)]
  exact loadTx_stopTransmission m hidden2 t

theorem loadTx_transmitBit (m : Registers) (hidden2 : ℕ × ℕ) (t : Transmitter) :
    (m.transmitBit t).loadTx hidden2 t.transmitBit = (m.loadTx hidden2 t).transmitBit := by
  have hsync : ∀ t' : Transmitter, loadTx
      (if t.currByte = 0 && t.currBit = 0 then m.assign odrC (.or (1#32 <<< 5)) else m)
        hidden2 t' = m.loadTx hidden2 t' := by
    intro t'
    split
    · rw [loadTx_assign_odrC, Assign.apply, BitVec.getLsbD_setBit _ (by decide),
        if_neg (by decide)]
      rfl
    · rfl
  have hpin : ∀ t' : Transmitter, (m.transmitBit t).loadTx hidden2 t' =
      { m.loadTx hidden2 t' with pin := t.nextHalfBit } := by
    intro t'
    unfold transmitBit
    dsimp only
    split
    · next hbit =>
      rw [loadTx_assign_odrC, hsync, Assign.apply, BitVec.getLsbD_setBit _ (by decide),
        if_pos rfl, hbit]
    · next hbit =>
      rw [loadTx_assign_odrC, hsync, Assign.apply, BitVec.getLsbD_clearBit, if_pos rfl,
        Bool.eq_false_of_not_eq_true hbit]
  rw [hpin]
  by_cases hbyte : t.currBit + 1 = 8
  · simp only [Transmitter.transmitBit, loadTx, hbyte, if_true]
    rfl
  · simp only [Transmitter.transmitBit, loadTx, hbyte, if_false]
    rfl

theorem loadTx_tim2IRQHandler (m : Registers) (hidden2 : ℕ × ℕ) (t : Transmitter)
    (state : MonitorState) :
    (m.tim2IRQHandler t state).loadTx hidden2 (t.tim2IRQHandler state) =
      (m.loadTx hidden2 t).tim2IRQHandler state := by
  have hend : ∀ complete : Bool,
      (m.timCall (.tim2, .clearOutputCmpModePendingFlag)).endTransmission.loadTx hidden2
        { t.acknowledge.stopTransmission with transmissionComplete := complete } =
          { (m.loadTx hidden2 t).acknowledge.stopTransmission with
            transmissionComplete := complete } := by
    intro complete
    have h := loadTx_endTransmission (m.timCall (.tim2, .clearOutputCmpModePendingFlag)) hidden2
      t.acknowledge
    rw [loadTx_acknowledge] at h
    exact congrArg (fun u : Transmitter => { u with transmissionComplete := complete }) h
  -- none of the conditions is about the timer or the pin
  calc (m.tim2IRQHandler t state).loadTx hidden2 (t.tim2IRQHandler state)
    _ = if t.retransmissionTimeoutActive then
          ((m.timCall (.tim2, .clearOutputCmpModePendingFlag)).toggleRetransmission 0
            false).startTransmission.loadTx hidden2
            (t.acknowledge.toggleRetransmission 0 false).startTransmission
        else if t.atEnd then
          (m.timCall (.tim2, .clearOutputCmpModePendingFlag)).endTransmission.loadTx hidden2
            { t.acknowledge.stopTransmission with transmissionComplete := true }
        else if state = .collision then
          (m.timCall (.tim2, .clearOutputCmpModePendingFlag)).endTransmission.loadTx hidden2
            { t.acknowledge.stopTransmission with transmissionComplete := false }
        else ((m.timCall (.tim2, .clearOutputCmpModePendingFlag)).transmitBit
          t.acknowledge).loadTx hidden2 t.acknowledge.transmitBit := by
      rw [← loadTx_ite, ← loadTx_ite, ← loadTx_ite]
      rfl
    _ = (m.loadTx hidden2 t).tim2IRQHandler state := by
      rw [loadTx_startTransmission, loadTx_toggleRetransmission, loadTx_acknowledge, hend, hend,
        loadTx_transmitBit, loadTx_acknowledge]
      rfl

/-! ## The monitor -/

theorem loadMon_updateMonitorState (m : Registers) (mon : Monitor) (newState : MonitorState) :
    (m.updateMonitorState newState).loadMon (mon.updateMonitorState newState) =
      (m.loadMon mon).updateMonitorState newState := by
  simp +decide only [loadMon, updateMonitorState, Monitor.updateMonitorState,
    RegisterFile.assign_apply, Assign.apply, if_true, if_false]

theorem loadMon_resetTimer (m : Registers) (mon : Monitor) :
    (m.resetTimer transmissionTimeoutUs).loadMon (mon.resetTimer transmissionTimeoutUs) =
      (m.loadMon mon).resetTimer transmissionTimeoutUs := by
  have henable : ∀ x : BitVec 32,
      (x ||| (1#32 <<< 0 ||| 1#32 <<< 2 ||| 1#32 <<< 1)).getLsbD 0 = true := by
    intro x
    simp
  simp +decide only [loadMon, resetTimer, Monitor.resetTimer, RegisterFile.assigns,
    List.foldl_cons, List.foldl_nil, RegisterFile.assign_apply, Assign.apply, if_true, if_false,
    henable]
  rfl

theorem loadMon_monitorEdgeIntrr (m : Registers) (mon : Monitor) (idr4 : Bool) :
    m.monitorEdgeIntrr.loadMon (mon.edgeIntrr idr4) = (m.loadMon mon).edgeIntrr idr4 := by
  have hreset : (m.resetTimer transmissionTimeoutUs).loadMon
      { mon.resetTimer transmissionTimeoutUs with lineState := idr4 } =
        { (m.loadMon mon).resetTimer transmissionTimeoutUs with lineState := idr4 } :=
    congrArg (fun mon : Monitor => { mon with lineState := idr4 }) (loadMon_resetTimer m mon)
  refine (loadMon_updateMonitorState _ _ .busy).trans ?_
  rw [hreset]
  rfl

theorem loadMon_sysTickHandler (m : Registers) (mon : Monitor) :
    (m.sysTickHandler mon).loadMon mon.sysTickHandler = (m.loadMon mon).sysTickHandler := by
  have hstop : loadMon (m.assign stkCtrl (.and (~~~(1#32 <<< 0))))
      { mon with stk := { mon.stk with enable := false } } =
        { m.loadMon mon with stk := { (m.loadMon mon).stk with enable := false } } := by
    simp +decide only [loadMon, RegisterFile.assign_apply, Assign.apply, if_true, if_false,
      BitVec.getLsbD_clearBit]
  by_cases hline : mon.lineState = true
  · refine Eq.trans ?_ (if_pos hline).symm
    rw [← hstop, ← loadMon_updateMonitorState, sysTickHandler, Monitor.sysTickHandler]
    dsimp only
    rw [if_pos hline, if_pos hline]
  · refine Eq.trans ?_ (if_neg hline).symm
    rw [← hstop, ← loadMon_updateMonitorState, sysTickHandler, Monitor.sysTickHandler]
    dsimp only
    rw [if_neg hline, if_neg hline]

/-! ## The receiver -/

theorem loadRx_idleReset (m : Registers) (hidden4 : ℕ × ℕ) (r : Receiver) :
    m.loadRx hidden4 r.idleReset = (m.loadRx hidden4 r).idleReset := by
  cases hsample : r.sample with
  | true =>
    simp only [Receiver.idleReset, loadRx, hsample, Bool.not_true, Bool.false_eq_true, if_false]
  | false => simp only [Receiver.idleReset, loadRx, hsample, Bool.not_false, if_true]

theorem loadRx_dropMessage (m : Registers) (hidden4 : ℕ × ℕ) (r : Receiver) :
    (m.timCall (.tim4, .stopCounter)).loadRx hidden4 r.dropMessage =
      (m.loadRx hidden4 r).dropMessage := by
  simp only [Receiver.dropMessage, Receiver.printf, loadRx, tim4_timCall, TimCall.effect]

theorem loadRx_readLoop (m : Registers) (hidden4 : ℕ × ℕ) (n : ℕ) (r : Receiver) :
    m.loadRx hidden4 (Receiver.readLoop n r) = Receiver.readLoop n (m.loadRx hidden4 r) := by
  induction n generalizing r with
  | zero => rfl
  | succ n ih =>
    by_cases hmore : (Ringbuffer.hasElement r.receiveBuf &&
        decide (r.msgCur < sizeofPacketHeader)) = true
    · rw [Receiver.readLoop, if_pos hmore, ih]
      exact (if_pos hmore).symm
    · rw [Receiver.readLoop, if_neg hmore]
      exact (if_neg hmore).symm

theorem loadRx_displayPacket (m : Registers) (hidden4 : ℕ × ℕ) (r : Receiver) :
    m.loadRx hidden4 r.displayPacket = (m.loadRx hidden4 r).displayPacket := by
  obtain ⟨ok, pkt, hparse⟩ : ∃ ok pkt, phParse r.pkt (memory r.msgBuf) r.msgCur = (ok, pkt) :=
    ⟨_, _, rfl⟩
  by_cases hlength : pkt.length.toNat < phMsgSize - 1
  · cases ok with
    | true => simp only [Receiver.displayPacket, Receiver.printf, loadRx, hparse, hlength,
        Bool.not_true, Bool.false_eq_true, if_true, if_false]
    | false => simp only [Receiver.displayPacket, Receiver.printf, loadRx, hparse, hlength,
        Bool.not_false, if_true]
  · cases ok with
    | true => simp only [Receiver.displayPacket, Receiver.printf, loadRx, hparse, hlength,
        Bool.not_true, Bool.false_eq_true, if_false]
    | false => simp only [Receiver.displayPacket, Receiver.printf, loadRx, hparse, hlength,
        Bool.not_false, if_true, if_false]

theorem loadRx_displayRaw (m : Registers) (hidden4 : ℕ × ℕ) (r : Receiver) :
    m.loadRx hidden4 r.displayRaw = (m.loadRx hidden4 r).displayRaw := by
  by_cases hd : r.msgCur < phMsgSize - 1
  · simp only [Receiver.displayRaw, Receiver.printf, loadRx, hd, if_true]
  · simp only [Receiver.displayRaw, Receiver.printf, loadRx, hd, if_false]

theorem loadRx_deliver (m : Registers) (hidden4 : ℕ × ℕ) (r : Receiver) :
    m.loadRx hidden4 r.deliver = (m.loadRx hidden4 r).deliver := by
  have hread := loadRx_readLoop m hidden4 sizeofPacketHeader { r with msgCur := 0 }
  unfold Receiver.deliver
  dsimp only
  rw [show ({ m.loadRx hidden4 r with msgCur := 0 } : Receiver) =
    m.loadRx hidden4 { r with msgCur := 0 } from rfl, ← hread]
  split
  · exact (loadRx_displayPacket m hidden4 _).trans (if_pos ‹_›).symm
  · exact (loadRx_displayRaw m hidden4 _).trans (if_neg ‹_›).symm

theorem loadRx_receiverUpdate (m : Registers) (hidden4 : ℕ × ℕ) (r : Receiver)
    (state : MonitorState) :
    (m.receiverUpdate r state).loadRx hidden4 (r.mainRoutineUpdate state) =
      (m.loadRx hidden4 r).mainRoutineUpdate state := by
  have hidle : m.loadRx hidden4 (if state = .idle then r.idleReset else r) =
      if state = .idle then (m.loadRx hidden4 r).idleReset else m.loadRx hidden4 r := by
    split
    · exact loadRx_idleReset m hidden4 r
    · rfl
  unfold receiverUpdate Receiver.mainRoutineUpdate
  dsimp only
  rw [← hidle]
  generalize (if state = .idle then r.idleReset else r) = r'
  have hdrop : loadRx (if r'.currentlyReceiving && decide (state = .collision) then
      m.timCall (.tim4, .stopCounter) else m) hidden4
        (if r'.currentlyReceiving && decide (state = .collision) then r'.dropMessage else r') =
      if r'.currentlyReceiving && decide (state = .collision) then
        (m.loadRx hidden4 r').dropMessage else m.loadRx hidden4 r' := by
    split
    · exact loadRx_dropMessage m hidden4 r'
    · rfl
  refine Eq.trans ?_ (congrArg (fun r : Receiver =>
    if !r.currentlyReceiving && Ringbuffer.hasElement r.receiveBuf then r.deliver else r) hdrop)
  generalize (if r'.currentlyReceiving && decide (state = .collision) then r'.dropMessage else r') =
    r''
  generalize (if r'.currentlyReceiving && decide (state = .collision) then
    m.timCall (.tim4, .stopCounter) else m) = m'
  split
  · next hready => exact (loadRx_deliver m' hidden4 r'').trans (if_pos hready).symm
  · next hready => exact (if_neg hready).symm

theorem loadRx_tim4IRQHandler (m : Registers) (hidden4 : ℕ × ℕ) (r : Receiver) :
    m.tim4IRQHandler.loadRx hidden4 r.tim4IRQHandler = (m.loadRx hidden4 r).tim4IRQHandler := by
  simp +decide only [loadRx, tim4IRQHandler, Receiver.tim4IRQHandler, tim4_timCall,
    timState_assign_of_ne _ _ place_tim4, TimCall.effect]

theorem loadRx_edge (m : Registers) (hidden4 : ℕ × ℕ) (r : Receiver) (idr4 : Bool) :
    (m.edge r).loadRx hidden4 (r.edge idr4) = (m.loadRx hidden4 r).edge idr4 := by
  cases hsample : r.sample with
  | true =>
    have htim4 : timState (m.edge r) tim4Place hidden4 = TimCall.startCounter.effect
        (TimCall.clearCnt.effect (timState m tim4Place hidden4)) := by
      rw [edge, if_pos hsample, timState_assign_of_ne _ _ place_tim4 hidden4 (by decide)
        (by decide) (by decide), tim4_timCall, tim4_timCall]
    have hloaded : (m.loadRx hidden4 r).sample = true := hsample
    rw [Receiver.edge_sample hsample, Receiver.edge_sample hloaded]
    simp only [loadRx, htim4, TimCall.effect]
    rfl
  | false =>
    have htim4 : timState (m.edge r) tim4Place hidden4 = TimCall.stopCounter.effect
        (timState m tim4Place hidden4) := by
      rw [edge, if_neg (by simp [hsample]), tim4_timCall]
    have hloaded : (m.loadRx hidden4 r).sample = false := hsample
    rw [Receiver.edge_boundary hsample, Receiver.edge_boundary hloaded]
    simp only [loadRx, htim4, TimCall.effect]

/-! ## The counters -/

/-- The counter of a timer writes what it counts. -/
theorem timState_count (m : Registers) {tim : Tims} {place : TimPlace}
    (h : tim.place = some place) (hidden : ℕ × ℕ) {t : Tim} (hcnt : t.cnt < 2 ^ 32)
    (ht : t = { (timState m place hidden).tim with
      cnt := t.cnt, uif := t.uif, pscActive := t.pscActive, pscCount := t.pscCount }) :
    timState (m.count tim t) place (t.pscActive, t.pscCount) =
      { timState m place hidden with tim := t } := by
  rw [count, timState_onTimer m h (by simp [TimReg.cnt, TimReg.sr]), ht]
  cases huif : t.uif
  all_goals
    simp [timState, timStateOf, timOf, RegisterFile.assigns, RegisterFile.assign_apply,
      Assign.apply, TimReg.cr1, TimReg.dier, TimReg.sr, TimReg.ccmr1, TimReg.ccer, TimReg.cnt,
      TimReg.psc, TimReg.arr, TimReg.ccr1]
    exact hcnt

theorem timState_count_of_ne (m : Registers) {tim tim' : Tims} {place : TimPlace}
    (h : tim.place = some place) (hne : tim' ≠ tim) (t : Tim) (hidden : ℕ × ℕ) :
    timState (m.count tim' t) place hidden = timState m place hidden :=
  timState_onTimer_of_ne m h (by simp [TimReg.cnt, TimReg.sr]) hidden hne

theorem count_apply (m : Registers) (tim : Tims) (t : Tim) {a : ℕ} (ha : 0x40000C00 ≤ a) :
    m.count tim t a = m a :=
  onTimer_shared m (by simp [TimReg.cnt, TimReg.sr]) ha

/-- Counting changes nothing that the board shows beside the counter. -/
theorem frame_count (m : Registers) (tim : Tims) (t : Tim) (mon : Monitor) :
    (m.count tim t).loadMon mon = m.loadMon mon ∧ m.count tim t odrC = m odrC ∧
      m.count tim t idrC = m idrC := by
  refine ⟨?_, count_apply m tim t (by decide), count_apply m tim t (by decide)⟩
  simp +decide only [loadMon, count_apply]

end Registers

namespace RegisterBoard

variable {b : RegisterBoard}

theorem node_eq {n : Node} (htx : b.regs.loadTx b.hidden2 b.vars.tx = n.tx)
    (hmon : b.regs.loadMon b.vars.mon = n.mon) (hrx : b.regs.loadRx b.hidden4 b.vars.rx = n.rx)
    (hidr : (b.regs idrC).getLsbD 4 = n.idr4) : b.node = n := by
  rw [node, htx, hmon, hrx, hidr]

/-! ## The program -/

theorem node_transmitterUpdate (b : RegisterBoard) (c : Byte) (random : ℕ) :
    (b.transmitterUpdate c random).node = b.node.transmitterUpdate c random := by
  obtain ⟨hmon, hrx, hidr⟩ := (Registers.via_transmitterUpdate b.regs b.vars.tx
    b.vars.mon.getState c random).frame_tx b.vars.mon b.vars.rx b.hidden4
  apply node_eq
  · exact Registers.loadTx_transmitterUpdate b.regs b.hidden2 b.vars.tx _ c random
  · exact hmon
  · exact hrx
  · exact congrArg (fun x => BitVec.getLsbD x 4) hidr

theorem node_tim2IRQHandler (b : RegisterBoard) :
    b.tim2IRQHandler.node = b.node.tim2IRQHandler := by
  obtain ⟨hmon, hrx, hidr⟩ := (Registers.via_tim2IRQHandler b.regs b.vars.tx
    b.vars.mon.getState).frame_tx b.vars.mon b.vars.rx b.hidden4
  apply node_eq
  · exact Registers.loadTx_tim2IRQHandler b.regs b.hidden2 b.vars.tx _
  · exact hmon
  · exact hrx
  · exact congrArg (fun x => BitVec.getLsbD x 4) hidr

theorem node_sysTickHandler (b : RegisterBoard) :
    b.sysTickHandler.node = b.node.sysTickHandler := by
  obtain ⟨htx, hrx, hidr⟩ := (Registers.via_sysTickHandler b.regs b.vars.mon).frame_mon
    b.vars.tx b.vars.rx b.hidden2 b.hidden4
  apply node_eq
  · exact htx
  · exact Registers.loadMon_sysTickHandler b.regs b.vars.mon
  · exact hrx
  · exact congrArg (fun x => BitVec.getLsbD x 4) hidr

theorem node_receiverUpdate (b : RegisterBoard) :
    b.receiverUpdate.node = b.node.receiverUpdate := by
  obtain ⟨htx, hmon, hidr⟩ := (Registers.via_receiverUpdate b.regs b.vars.rx
    b.vars.mon.getState).frame_rx b.vars.tx b.vars.mon b.hidden2
  apply node_eq
  · exact htx
  · exact hmon
  · exact Registers.loadRx_receiverUpdate b.regs b.hidden4 b.vars.rx _
  · exact congrArg (fun x => BitVec.getLsbD x 4) hidr

theorem node_tim4IRQHandler (b : RegisterBoard) :
    b.tim4IRQHandler.node = b.node.tim4IRQHandler := by
  obtain ⟨htx, hmon, hidr⟩ := (Registers.via_tim4IRQHandler b.regs).frame_rx b.vars.tx b.vars.mon
    b.hidden2
  apply node_eq
  · exact htx
  · exact hmon
  · exact Registers.loadRx_tim4IRQHandler b.regs b.hidden4 b.vars.rx
  · exact congrArg (fun x => BitVec.getLsbD x 4) hidr

/-- The edge interrupt: acknowledged by the receiver, then the monitor's part, then the
receiver's. -/
theorem node_exti4IRQHandler (hpending : b.regs extiPr &&& 1#32 <<< 4 ≠ 0) :
    b.exti4IRQHandler.node = b.node.exti4IRQHandler := by
  obtain ⟨m1, hm1⟩ : ∃ m1, b.regs.writeExtiPr (b.regs extiPr ||| 1#32 <<< 4) = m1 := ⟨_, rfl⟩
  have hregs : b.regs.exti4IRQHandler b.vars.rx = m1.monitorEdgeIntrr.edge b.vars.rx := by
    rw [Registers.exti4IRQHandler, if_neg hpending, hm1]
  have hvars : b.exti4IRQHandler.vars =
      { b.vars with idr4 := (b.regs idrC).getLsbD 4 }.exti4IRQHandler := if_neg hpending
  obtain ⟨htx1, hmon1, hidr1⟩ := (hm1 ▸ Registers.via_acknowledge b.regs
    (b.regs extiPr ||| 1#32 <<< 4)).frame_rx b.vars.tx b.vars.mon b.hidden2
  have hrx1 : m1.loadRx b.hidden4 b.vars.rx = b.regs.loadRx b.hidden4 b.vars.rx := by
    rw [← hm1, Registers.loadRx, Registers.loadRx, Registers.writeExtiPr,
      Registers.timState_assign_of_ne _ _ Registers.place_tim4 _ (by decide) (by decide)
        (by decide)]
  obtain ⟨htx2, hrx2, hidr2⟩ := (Registers.via_monitorEdgeIntrr m1).frame_mon b.vars.tx b.vars.rx
    b.hidden2 b.hidden4
  obtain ⟨htx3, hmon3, hidr3⟩ := (Registers.via_edge m1.monitorEdgeIntrr b.vars.rx).frame_rx
    b.vars.tx (b.vars.mon.edgeIntrr ((b.regs idrC).getLsbD 4)) b.hidden2
  apply node_eq
  · rw [hvars]
    show (b.regs.exti4IRQHandler b.vars.rx).loadTx b.hidden2 b.vars.tx = _
    rw [hregs, htx3, htx2, htx1]
    rfl
  · rw [hvars]
    show (b.regs.exti4IRQHandler b.vars.rx).loadMon
      (b.vars.mon.edgeIntrr ((b.regs idrC).getLsbD 4)) = _
    rw [hregs, hmon3, Registers.loadMon_monitorEdgeIntrr, hmon1]
    rfl
  · rw [hvars]
    show (b.regs.exti4IRQHandler b.vars.rx).loadRx b.hidden4
      (b.vars.rx.edge ((b.regs idrC).getLsbD 4)) = _
    rw [hregs, Registers.loadRx_edge, hrx2, hrx1]
    rfl
  · show (b.regs.exti4IRQHandler b.vars.rx idrC).getLsbD 4 = _
    rw [hregs, hidr3, hidr2, hidr1]
    rfl

/-! ## The peripherals -/

theorem node_count2 {t : Tim} (hcnt : t.cnt < 2 ^ 32)
    (ht : t = { b.node.tx.tim2 with
      cnt := t.cnt, uif := t.uif, pscActive := t.pscActive, pscCount := t.pscCount }) :
    (b.count2 t).node = { b.node with tx := { b.node.tx with tim2 := t } } := by
  have htim2 := Registers.timState_count b.regs Registers.place_tim2 b.hidden2 hcnt ht
  have htim4 := Registers.timState_count_of_ne b.regs Registers.place_tim4
    (show Tims.tim2 ≠ .tim4 by decide) t b.hidden4
  obtain ⟨hmon, hodr, hidr⟩ := Registers.frame_count b.regs .tim2 t b.vars.mon
  apply node_eq
  · show (b.regs.count .tim2 t).loadTx (t.pscActive, t.pscCount) b.vars.tx = _
    rw [Registers.loadTx, htim2, hodr]
    rfl
  · exact hmon
  · show (b.regs.count .tim2 t).loadRx b.hidden4 b.vars.rx = _
    rw [Registers.loadRx, htim4]
    rfl
  · exact congrArg (fun x => BitVec.getLsbD x 4) hidr

theorem node_count4 {t : Tim} (hcnt : t.cnt < 2 ^ 32)
    (ht : t = { b.node.rx.tim4 with
      cnt := t.cnt, uif := t.uif, pscActive := t.pscActive, pscCount := t.pscCount }) :
    (b.count4 t).node = { b.node with rx := { b.node.rx with tim4 := t } } := by
  have htim4 := Registers.timState_count b.regs Registers.place_tim4 b.hidden4 hcnt ht
  have htim2 := Registers.timState_count_of_ne b.regs Registers.place_tim2
    (show Tims.tim4 ≠ .tim2 by decide) t b.hidden2
  obtain ⟨hmon, hodr, hidr⟩ := Registers.frame_count b.regs .tim4 t b.vars.mon
  apply node_eq
  · show (b.regs.count .tim4 t).loadTx b.hidden2 b.vars.tx = _
    rw [Registers.loadTx, htim2, hodr]
    rfl
  · exact hmon
  · show (b.regs.count .tim4 t).loadRx (t.pscActive, t.pscCount) b.vars.rx = _
    rw [Registers.loadRx, htim4]
    rfl
  · exact congrArg (fun x => BitVec.getLsbD x 4) hidr

theorem node_edge (b : RegisterBoard) (level : Bool) :
    (b.edge level).node = { b.node with idr4 := level } ∧
      (b.edge level).regs extiPr &&& 1#32 <<< 4 ≠ 0 := by
  have hidr4 : (b.regs.setIdr4 level idrC).getLsbD 4 = level := by
    rw [Registers.setIdr4, RegisterFile.assign_apply, if_pos rfl]
    cases level
    · exact (BitVec.getLsbD_clearBit _ 4 4).trans (if_pos rfl)
    · exact (BitVec.getLsbD_setBit _ (by decide) 4).trans (if_pos rfl)
  constructor
  · apply node_eq
    · simp +decide only [edge, node, Registers.loadTx, Registers.setIdr4, RegisterFile.assign_apply,
        Registers.timState_assign_of_ne _ _ Registers.place_tim2, if_false]
    · simp +decide only [edge, node, Registers.loadMon, Registers.setIdr4,
        RegisterFile.assign_apply, if_false]
    · simp +decide only [edge, node, Registers.loadRx, Registers.setIdr4,
        Registers.timState_assign_of_ne _ _ Registers.place_tim4]
    · show (RegisterFile.assign (b.regs.setIdr4 level) extiPr (.or (1#32 <<< 4)) idrC).getLsbD 4 =
        level
      rw [RegisterFile.assign_apply, if_neg (by decide)]
      exact hidr4
  · rw [BitVec.and_one_shiftLeft_ne_zero_iff _ (by decide)]
    show (RegisterFile.assign (b.regs.setIdr4 level) extiPr (.or (1#32 <<< 4)) extiPr).getLsbD 4 =
      true
    rw [RegisterFile.assign_apply, if_pos rfl, Assign.apply, BitVec.getLsbD_setBit _ (by decide),
      if_pos rfl]

/-! ## Steps -/

theorem configured_count (h : b.regs.Configured) (tim : Tims) (t : Tim) :
    (b.regs.count tim t).Configured := by
  have hconfig : ∀ {tim' : Tims} {place : TimPlace}, tim'.place = some place →
      ((b.regs.count tim t).timState place (0, 0)).config =
        (b.regs.timState place (0, 0)).config := by
    intro tim' place hplace
    by_cases hself : tim = tim'
    · subst hself
      rw [Registers.count,
        Registers.timState_onTimer b.regs hplace (by simp [TimReg.cnt, TimReg.sr])]
      simp [TimState.config, Registers.timState, Registers.timStateOf, RegisterFile.assigns,
        RegisterFile.assign_apply, TimReg.dier, TimReg.sr, TimReg.cnt]
    · rw [Registers.timState_count_of_ne b.regs hplace hself]
  have hfixed : ∀ a ∈ Registers.Configured.fixed, 0x40000C00 ≤ a := by decide
  apply h.of_kept (hconfig Registers.place_tim2) (hconfig Registers.place_tim4)
  · intro a ha
    exact Registers.count_apply b.regs tim t (hfixed a ha)
  · rw [Registers.count_apply b.regs tim t (by decide)]
  · rw [Registers.count_apply b.regs tim t (by decide)]
    exact h.tickint

theorem configured_edge (h : b.regs.Configured) (level : Bool) :
    (b.edge level).regs.Configured := by
  have hidr : (b.regs.setIdr4 level).Configured :=
    h.access (x := .word idrC _) (.inr (.inr (.inr rfl)))
  exact hidr.access (x := .word extiPr _) (.inr (.inr (.inl (.inl rfl))))

theorem configured_tx {m m' : Registers} (h : m.Configured) (hvia : m.Via Access.Tx m') :
    m'.Configured :=
  hvia.configured (fun _ hx => .inl hx) h

theorem configured_mon {m m' : Registers} (h : m.Configured) (hvia : m.Via Access.Mon m') :
    m'.Configured :=
  hvia.configured (fun _ hx => .inr (.inl hx)) h

theorem configured_rx {m m' : Registers} (h : m.Configured) (hvia : m.Via Access.Rx m') :
    m'.Configured :=
  hvia.configured (fun _ hx => .inr (.inr (.inl hx))) h

theorem configured_exti4 (h : b.regs.Configured) : b.exti4IRQHandler.regs.Configured := by
  show (b.regs.exti4IRQHandler b.vars.rx).Configured
  unfold Registers.exti4IRQHandler
  split
  · exact h
  · exact configured_rx (configured_mon (configured_rx h (Registers.via_acknowledge _ _))
      (Registers.via_monitorEdgeIntrr _)) (Registers.via_edge _ _)

/-- What a configured board has enabled: the interrupts of both timers while they run, those of
both edges, and that of a running SysTick. -/
theorem enabled_of_configured (h : b.regs.Configured) (level : Bool) :
    (b.regs.timerRuns tim2Place && b.regs.timerInterrupts tim2Place) = b.node.tx.tim2.cen ∧
      (b.regs.timerRuns tim4Place && b.regs.timerInterrupts tim4Place) = b.node.rx.tim4.cen ∧
      b.regs.edgeInterrupts level = true ∧
      ((b.regs stkCtrl).getLsbD 0 && b.regs.sysTickInterrupts) = b.node.mon.stk.enable := by
  have htim : ∀ {place : TimPlace} {hidden : ℕ × ℕ},
      (b.regs.timState place (0, 0)).config = (true, true, true) →
        (b.regs.timerRuns place && b.regs.timerInterrupts place) =
          (b.regs.timState place hidden).tim.cen := by
    intro place hidden hconfig
    simp only [TimState.config, Prod.mk.injEq] at hconfig
    obtain ⟨hclock, huie, hirq⟩ := hconfig
    show (((b.regs.timState place (0, 0)).clockEnable && (b.regs.timState place hidden).tim.cen) &&
      ((b.regs.timState place (0, 0)).uie && (b.regs.timState place (0, 0)).irqEnable)) = _
    rw [hclock, huie, hirq, Bool.true_and, Bool.and_true, Bool.and_true]
  refine ⟨htim h.tim2, htim h.tim4, ?_, ?_⟩
  · unfold Registers.edgeInterrupts
    rw [h.pc4, h.exticr2, h.unmasked, h.exti4Irq]
    cases level
    · simp [h.falling]
    · simp [h.rising]
  · show ((b.regs stkCtrl).getLsbD 0 && (b.regs stkCtrl).getLsbD 1) = (b.regs stkCtrl).getLsbD 0
    cases henable : (b.regs stkCtrl).getLsbD 0
    · rfl
    · exact h.tickint henable

/-- On a configured board the registers do what the peripherals of `Node` do. -/
theorem node_step (h : b.regs.Configured) (e : Event) : (b.step e).map node = b.node.step e := by
  obtain ⟨htim2, htim4, -, hsysTick⟩ := enabled_of_configured h true
  cases e with
  | transmitterUpdate c random => exact congrArg some (node_transmitterUpdate b c random)
  | receiverUpdate => exact congrArg some (node_receiverUpdate b)
  | tim2 =>
    rw [step, htim2, Node.step]
    split
    · rw [Option.map_some, node_tim2IRQHandler, node_count2 (Nat.two_pow_pos 32) rfl]
      rfl
    · rfl
  | tim4 =>
    rw [step, htim4, Node.step]
    split
    · rw [Option.map_some, node_tim4IRQHandler, node_count4 (Nat.two_pow_pos 32) rfl]
      rfl
    · rfl
  | exti4 level =>
    obtain ⟨hnode, hpending⟩ := node_edge b level
    rw [step, (enabled_of_configured h level).2.2.1, if_pos rfl, Option.map_some,
      node_exti4IRQHandler hpending, hnode]
    rfl
  | sysTick =>
    rw [step, hsysTick, Node.step]
    split
    · rw [Option.map_some, node_sysTickHandler]
    · rfl

theorem configured_step (h : b.regs.Configured) {e : Event} {b' : RegisterBoard}
    (hs : b.step e = some b') : b'.regs.Configured := by
  cases e with
  | transmitterUpdate c random =>
    cases hs
    exact configured_tx h (Registers.via_transmitterUpdate _ _ _ c random)
  | receiverUpdate =>
    cases hs
    exact configured_rx h (Registers.via_receiverUpdate _ _ _)
  | tim2 =>
    rw [step, Option.ite_none_right_eq_some, Option.some.injEq] at hs
    obtain ⟨_, rfl⟩ := hs
    exact configured_tx (configured_count h .tim2 _) (Registers.via_tim2IRQHandler _ _ _)
  | tim4 =>
    rw [step, Option.ite_none_right_eq_some, Option.some.injEq] at hs
    obtain ⟨_, rfl⟩ := hs
    exact configured_rx (configured_count h .tim4 _) (Registers.via_tim4IRQHandler _)
  | exti4 level =>
    rw [step, Option.ite_none_right_eq_some, Option.some.injEq] at hs
    obtain ⟨_, rfl⟩ := hs
    exact configured_exti4 (configured_edge h level)
  | sysTick =>
    rw [step, Option.ite_none_right_eq_some, Option.some.injEq] at hs
    obtain ⟨_, rfl⟩ := hs
    exact configured_mon h (Registers.via_sysTickHandler _ _)

end RegisterBoard

/-! ## The boot -/

namespace Registers

/-- What the program relies on after reset: no timer has counted or was given a prescaler, SysTick
is off, the LEDs are off and their pins not yet configured, and no interrupt was given a
priority. -/
structure AfterReset (m : Registers) : Prop where
  zero : ∀ a ∈ [0x40000010, 0x40000810, 0x40000828, NetworkingCard.odrB, NetworkingCard.stkCtrl,
    NetworkingCard.stkLoad, NetworkingCard.stkVal, nvicIpr2, 0xE000E41C, 0xE000ED20], m a = 0
  leds : m NetworkingCard.moderB &&& 0b111111#32 <<< 26 = 0

theorem timState_usart2Clock (m : Registers) {tim : Tims} {place : TimPlace}
    (h : tim.place = some place) (hidden : ℕ × ℕ) :
    timState (m.assign rccApb1enr (.or (1#32 <<< 17))) place hidden = timState m place hidden := by
  have hbounds := Tims.base_bounds h
  rw [timState_assign m h hidden (by decide), RegisterFile.assign_apply, if_pos rfl,
    RegisterFile.assign_apply, if_neg (by decide), Assign.apply,
    BitVec.getLsbD_setBit _ (by decide), if_neg (by omega)]
  rfl

theorem timState_exti4Irq (m : Registers) {tim : Tims} {place : TimPlace}
    (h : tim.place = some place) (hidden : ℕ × ℕ) :
    timState (m.assign iser0 (.or (1#32 <<< 10))) place hidden = timState m place hidden := by
  have hirq : place.irq ≠ 10 := by
    rcases Tims.place_eq_some h with ⟨_, rfl⟩ | ⟨_, rfl⟩ | ⟨_, rfl⟩ <;> simp
  rw [timState_assign m h hidden (by decide), RegisterFile.assign_apply, if_neg (by decide),
    RegisterFile.assign_apply, if_pos rfl, Assign.apply, BitVec.getLsbD_setBit _ (by decide),
    if_neg hirq]
  rfl

theorem timState_initUsart2 (m : Registers) {tim : Tims} {place : TimPlace}
    (h : tim.place = some place) (hidden : ℕ × ℕ) (baud sysclk : ℕ) :
    timState (m.initUsart2 baud sysclk) place hidden = timState m place hidden := by
  simp +decide only [initUsart2, RegisterFile.assigns, List.foldl_cons, List.foldl_nil,
    timState_assign_of_ne _ _ h, timState_usart2Clock _ h]

theorem timState_initExternalInterrupt (m : Registers) {tim : Tims} {place : TimPlace}
    (h : tim.place = some place) (hidden : ℕ × ℕ) :
    timState m.initExternalInterrupt place hidden = timState m place hidden := by
  simp +decide only [initExternalInterrupt, initGpio, enableInputMode, RegisterFile.assigns,
    List.foldl_cons, List.foldl_nil, timState_assign_of_ne _ _ h, timState_exti4Irq _ h]

theorem timState_monitorStart (m : Registers) {tim : Tims} {place : TimPlace}
    (h : tim.place = some place) (hidden : ℕ × ℕ) :
    timState m.monitorStart place hidden = timState m place hidden := by
  simp +decide only [monitorStart, setupPinInterrupt, updateMonitorState, initGpio,
    enableInputMode, timState_assign_of_ne _ _ h]

theorem tim2_main (m : Registers) (hidden : ℕ × ℕ) :
    timState m.main tim2Place hidden = { timState m tim2Place hidden with
      tim := { (timState m tim2Place hidden).tim with
        cen := true, cnt := 0, psc := 0, arr := transmissionTicks, ccr1 := transmissionTicks }
      clockEnable := true
      uie := true
      irqEnable := true
      ccmr1 := (timState m tim2Place hidden).ccmr1 &&& ~~~0b1110000#32 ||| 0b0110000#32
      ccer := (timState m tim2Place hidden).ccer ||| 1#32 } := by
  simp +decide only [main, receiverInit, initCounterTimer, transmitterInit, initTransmissionTimer,
    initGpio, enableOutputMode, List.foldl_cons, List.foldl_nil, tim2_timCall, tim2_timCall_tim4,
    timState_initUsart2 _ place_tim2, timState_initExternalInterrupt _ place_tim2,
    timState_monitorStart _ place_tim2, timState_assign_of_ne _ _ place_tim2, TimCall.effect]
  rfl

theorem tim4_main (m : Registers) (hidden : ℕ × ℕ) :
    timState m.main tim4Place hidden = { timState m tim4Place hidden with
      tim := { (timState m tim4Place hidden).tim with
        cen := true, cnt := 0, arr := halfbitTimeoutTicks, ccr1 := halfbitTimeoutTicks }
      clockEnable := true
      uie := true
      irqEnable := true
      ccmr1 := (timState m tim4Place hidden).ccmr1 &&& ~~~0b1110000#32 ||| 0b0110000#32
      ccer := (timState m tim4Place hidden).ccer ||| 1#32 } := by
  simp +decide only [main, receiverInit, initCounterTimer, transmitterInit, initTransmissionTimer,
    initGpio, enableOutputMode, List.foldl_cons, List.foldl_nil, tim4_timCall, tim4_timCall_tim2,
    timState_initUsart2 _ place_tim4, timState_initExternalInterrupt _ place_tim4,
    timState_monitorStart _ place_tim4, timState_assign_of_ne _ _ place_tim4, TimCall.effect]
  rfl

theorem moderC_main (m : Registers) :
    m.main NetworkingCard.moderC &&& 0b11#32 <<< 8 = 0 ∧
      m.main NetworkingCard.moderC &&& 0b11#32 <<< 18 = 0b01#32 <<< 18 := by
  simp +decide only [main, receiverInit, initExternalInterrupt, initCounterTimer, transmitterInit,
    initTransmissionTimer, monitorStart, setupPinInterrupt, updateMonitorState, initUsart2,
    initGpio, enableInputMode, enableOutputMode, RegisterFile.assigns, List.foldl_cons,
    List.foldl_nil, timCall_apply, RegisterFile.assign_apply, if_true, if_false, Assign.apply]
  constructor
  · exact BitVec.and_clear_self _ _
  · -- the modes of PC4, PC8, PC6 and PC5 were written after that of PC9
    rw [BitVec.and_clear_of_disjoint _ (by decide),
      BitVec.and_setField_of_disjoint _ (by decide) (by decide),
      BitVec.and_setField_of_disjoint _ (by decide) (by decide),
      BitVec.and_setField_of_disjoint _ (by decide) (by decide)]
    exact BitVec.and_setField_self _ (by decide)

theorem words_main (m : Registers) :
    m.main moderB = m moderB ||| 0b010101#32 <<< 26 ∧
      m.main syscfgExticr2 = m syscfgExticr2 &&& ~~~(0b1111#32 <<< 0) ||| 0b0010#32 <<< 0 ∧
      m.main extiRtsr = m extiRtsr ||| 1#32 <<< 4 ∧ m.main extiFtsr = m extiFtsr ||| 1#32 <<< 4 ∧
      m.main extiImr = m extiImr ||| 1#32 <<< 4 ∧
      m.main nvicIpr2 = m nvicIpr2 ||| 0xF0#32 <<< 24 ∧
      m.main odrB = m odrB &&& ~~~(0b111#32 <<< 13) ||| Monitor.led .idle ∧
      ∀ a ∈ [odrC, idrC, stkCtrl, stkLoad, stkVal, 0xE000E41C, 0xE000ED20], m.main a = m a := by
  simp +decide only [main, receiverInit, initExternalInterrupt, initCounterTimer, transmitterInit,
    initTransmissionTimer, monitorStart, setupPinInterrupt, updateMonitorState, initUsart2,
    initGpio, enableInputMode, enableOutputMode, RegisterFile.assigns, List.foldl_cons,
    List.foldl_nil, timCall_apply, RegisterFile.assign_apply, if_true, if_false, Assign.apply,
    List.forall_mem_cons, true_and]
  exact fun _ h => absurd h List.not_mem_nil

theorem exti4Irq_main (m : Registers) : (m.main iser0).getLsbD 10 = true := by
  rw [main, receiverInit, initCounterTimer]
  simp +decide only [List.foldl_cons, List.foldl_nil, exti4Irq_timCall, initExternalInterrupt,
    RegisterFile.assigns, RegisterFile.assign_apply, if_true, Assign.apply,
    BitVec.getLsbD_setBit]

theorem AfterReset.configured (h : AfterReset m) : m.main.Configured := by
  obtain ⟨hmoderB, hexticr2, hrtsr, hftsr, himr, hipr2, _, hkept⟩ := words_main m
  obtain ⟨hpc4, hpc9⟩ := moderC_main m
  constructor
  case tim2 => rw [tim2_main]; rfl
  case tim4 => rw [tim4_main]; rfl
  case pc4 => exact hpc4
  case pc9 => exact hpc9
  case leds =>
    rw [hmoderB, BitVec.and_or_distrib_right, h.leds]
    decide
  case exticr2 => rw [hexticr2]; exact BitVec.and_setField_self _ (by decide)
  case rising => rw [hrtsr, BitVec.getLsbD_setBit _ (by decide), if_pos rfl]
  case falling => rw [hftsr, BitVec.getLsbD_setBit _ (by decide), if_pos rfl]
  case unmasked => rw [himr, BitVec.getLsbD_setBit _ (by decide), if_pos rfl]
  case exti4Irq => exact exti4Irq_main m
  case tickint =>
    rw [hkept stkCtrl (by decide), h.zero stkCtrl (by decide)]
    decide
  case priorities =>
    have hipr2' : m.main 0xE000E408 = 0xF0#32 <<< 24 := by
      refine hipr2.trans ?_
      rw [h.zero nvicIpr2 (by decide)]
      rfl
    simp only [priority, sysTickPriority, Nat.reduceDiv, Nat.reduceMod, Nat.reduceMul,
      Nat.reduceAdd, hipr2', hkept 0xE000E41C (by decide), hkept 0xE000ED20 (by decide),
      h.zero 0xE000E41C (by decide), h.zero 0xE000ED20 (by decide)]
    decide

end Registers

namespace RegisterBoard

theorem node_boot {m : Registers} (h : Registers.AfterReset m) (src dest : Byte)
    (packetMode : Bool) :
    (boot m src dest packetMode).node =
      Node.boot src dest packetMode ((m odrC).getLsbD 9) ((m idrC).getLsbD 4) := by
  obtain ⟨_, _, _, _, _, _, hodrB, hkept⟩ := Registers.words_main m
  have hsr2 : (m.timState tim2Place (0, 0)).tim.uif = false := by
    show (m 0x40000010).getLsbD 0 = false
    rw [h.zero _ (by decide)]
    rfl
  have hsr4 : (m.timState tim4Place (0, 0)).tim.uif = false := by
    show (m 0x40000810).getLsbD 0 = false
    rw [h.zero _ (by decide)]
    rfl
  have hpsc4 : (m.timState tim4Place (0, 0)).tim.psc = 0 := by
    show (m 0x40000828).toNat = 0
    rw [h.zero _ (by decide)]
    rfl
  have htim2 : (m.main.timState tim2Place (0, 0)).tim = Transmitter.initTransmissionTimer := by
    simp only [Registers.tim2_main, hsr2]
    rfl
  have htim4 : (m.main.timState tim4Place (0, 0)).tim = Receiver.initCounterTimer := by
    simp only [Registers.tim4_main, hsr4, hpsc4]
    rfl
  apply node_eq
  · show m.main.loadTx (0, 0) _ = _
    rw [Registers.loadTx, htim2, hkept odrC (by decide)]
    rfl
  · show m.main.loadMon Monitor.start = Monitor.start
    rw [Registers.loadMon, hodrB, hkept stkCtrl (by decide), hkept stkLoad (by decide),
      hkept stkVal (by decide), h.zero odrB (by decide), h.zero stkCtrl (by decide),
      h.zero stkLoad (by decide), h.zero stkVal (by decide)]
    simp [Monitor.start, Monitor.updateMonitorState]
  · show m.main.loadRx (0, 0) (Receiver.init packetMode) = Receiver.init packetMode
    rw [Registers.loadRx, htim4]
    rfl
  · have hregs : (boot m src dest packetMode).regs = m.main := rfl
    rw [hregs, hkept idrC (by decide)]
    rfl

/-! ## Every run -/

theorem run_node {b : RegisterBoard} (h : b.regs.Configured) (es : List Event) :
    (b.run es).map node = b.node.run es :=
  Runs.run_map_of_commutes (fun _ e h => node_step h e) (fun _ _ _ h hs => configured_step h hs) h es

/-- The program on the registers, started after a reset, runs exactly as the board that it was
taken for: it can take the same events, with the same result, and stays configured. -/
theorem run_boot {m : Registers} (h : Registers.AfterReset m) (src dest : Byte) (packetMode : Bool)
    (es : List Event) :
    ((boot m src dest packetMode).run es).map node =
        (Node.boot src dest packetMode ((m odrC).getLsbD 9) ((m idrC).getLsbD 4)).run es ∧
      ∀ b, (boot m src dest packetMode).run es = some b → b.regs.Configured := by
  have hboot : (boot m src dest packetMode).regs.Configured := h.configured
  constructor
  · rw [← node_boot h]
    exact run_node hboot es
  · intro b hr
    exact Runs.run_invariant (I := fun b => b.regs.Configured)
      (fun _ _ _ h hs => configured_step h hs) hboot hr

/-- An edge to the low level, and the timeout after it. -/
theorem run_boot_lowLine :
    ∃ b, (boot (fun _ => 0) 0xAA 0xBB true).run [.exti4 false, .sysTick] = some b ∧
      b.node.mon.monitorState = .collision ∧ b.regs.Configured := by
  have hreset : Registers.AfterReset fun _ => 0 := ⟨fun _ _ => rfl, rfl⟩
  obtain ⟨hrun, hconfigured⟩ := run_boot hreset 0xAA 0xBB true [.exti4 false, .sysTick]
  cases hb : (boot (fun _ => 0) 0xAA 0xBB true).run [.exti4 false, .sysTick] with
  | none =>
    rw [hb] at hrun
    exact absurd hrun.symm (Option.some_ne_none _)
  | some b =>
    rw [hb] at hrun
    refine ⟨b, rfl, ?_, hconfigured b hb⟩
    exact congrArg (fun n : Option Node => (n.map fun n => n.mon.monitorState).getD .idle) hrun

end RegisterBoard

end NetworkingCard
