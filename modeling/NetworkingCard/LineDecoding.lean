import NetworkingCard.Reception
import NetworkingCard.TransmitterTheorems

/-!
# The line code survives skew and jitter

`decodes_of_run`: whatever the durations of the single half-bits, as long as each one is shorter
than TIM4's timeout and two neighbours together are longer, a ready receiver decodes a byte list
exactly as it was encoded, and is ready again afterwards.

The simulation of the decoder (`Listening.follow`) reduces it to the round trip of the line code,
and `Bits.words_unique` takes the decoded bits apart into bytes.
-/

namespace NetworkingCard

open LineCode (Decoder)

/-- The half-bits of a byte list, as `transmitByte` encodes them and TIM2 sends them. -/
def halfBits (bytes : List Byte) : List Bool := (bytes.flatMap symbolBytes).flatMap Bits.msbFirst

theorem halfBits_eq (bytes : List Byte) :
    halfBits bytes = LineCode.encode (bytes.flatMap Bits.msbFirst) :=
  flatMap_msbFirst_symbolBytes bytes

@[simp] theorem length_halfBits (bytes : List Byte) :
    (halfBits bytes).length = 2 * (bytes.flatMap Bits.msbFirst).length := by
  rw [halfBits_eq, LineCode.length_encode]

/-- The first bit sent is the top bit of the first byte. -/
theorem head?_flatMap_msbFirst (bytes : List Byte) :
    (bytes.flatMap Bits.msbFirst).head? = bytes.head?.map BitVec.msb := by
  cases bytes with
  | nil => rfl
  | cons b bytes => rfl

/-- A byte list that the receiver can tell from an idle line. -/
def StartsLow (bytes : List Byte) : Prop := ∀ b, bytes.head? = some b → b.msb = false

theorem StartsLow.head?_bits {bytes : List Byte} (h : StartsLow bytes) :
    (bytes.flatMap Bits.msbFirst).head? ≠ some true := by
  rw [head?_flatMap_msbFirst]
  intro heq
  obtain ⟨b, hb, hmsb⟩ := Option.map_eq_some_iff.mp heq
  rw [h b hb] at hmsb
  cases hmsb

namespace Node

/-- A ready receiver on an idle line, with nothing unread. -/
structure Ready (n : Node) : Prop where
  idr4 : n.idr4 = true
  sample : n.rx.sample = true
  currBit : n.rx.currBit = 0
  empty : Ringbuffer.hasElement n.rx.receiveBuf = false

theorem Ready.listening {n : Node} (h : n.Ready) (hinv : n.rx.Inv) :
    n.Listening ⟨true, none, []⟩ := by
  refine ⟨⟨hinv, fun _ => h.sample, by simp, ?_⟩, h.idr4.symm⟩
  rw [Receiver.bits, Receiver.unread, Ringbuffer.contents_eq_nil_of_hasElement hinv.valid h.empty,
    h.currBit]
  rfl

/-- **Line code round trip.** From every reachable state in which the receiver is ready, a byte
list that fits into the buffer arrives as it was sent, for all admissible durations `ds` of its
half-bits and of the idle time after it. -/
theorem decodes_of_run {src dest : Byte} {packetMode pin line : Bool} {es₀ : List TimedEvent}
    {n : Node} (hn : (boot src dest packetMode pin line).timedRun es₀ = n) (hready : n.Ready)
    {bytes : List Byte} (hfirst : StartsLow bytes) (hlen : bytes.length ≤ bufSize - 1)
    {ds : List ℕ} (hds : ds.length = (halfBits bytes).length)
    (hshort : ∀ d ∈ ds, d ≤ halfbitTimeoutTicks)
    (hpair : ds.IsChain fun d d' => halfbitTimeoutTicks < d + d')
    {idle : ℕ} (hidle : halfbitTimeoutTicks < idle) :
    let n' := n.timedRun (waveEvents ((halfBits bytes).zip ds ++ [(true, idle)]))
    Ringbuffer.contents n'.rx.receiveBuf = bytes ∧ n'.rx.sample = true ∧ n'.rx.currBit = 0 := by
  intro n'
  have hinv : n.rx.Inv := hn ▸ rxInv_timedRun src dest packetMode pin line es₀
  -- what the abstract decoder makes of the waveform
  have hdecoded : (⟨true, none, []⟩ : Decoder ℕ).follow window
      ((halfBits bytes).zip ds ++ [(true, idle)]) = ⟨true, none, bytes.flatMap Bits.msbFirst⟩ := by
    rw [Decoder.follow_append, halfBits_eq]
    exact Decoder.follow_encode rfl rfl hfirst.head?_bits (by rw [hds, length_halfBits])
      (fun d hd => Nat.lt_succ_of_le (hshort d hd)) (hpair.imp fun _ _ h => h) hidle
  have hroom : (bytes.flatMap Bits.msbFirst).length ≤ 8 * (bufSize - 1) := by
    rw [Bits.length_flatMap_msbFirst]
    omega
  -- the receiver follows it
  have hlisten : n'.Listening ⟨true, none, bytes.flatMap Bits.msbFirst⟩ := by
    have := (hready.listening hinv).follow ((halfBits bytes).zip ds ++ [(true, idle)])
      (by rw [hdecoded]; exact hroom)
    rwa [hdecoded] at this
  obtain ⟨hunread, hbit⟩ := hlisten.tracks.unread_eq (List.append_nil _).symm (by simp)
  exact ⟨hunread, hlisten.tracks.closed rfl, hbit⟩

/-- Half-bits of uneven length, some of them only just shorter than the timeout. -/
def unevenDurations : List ℕ := (List.replicate 8 [7400, 8107, 4100, 8000]).flatten

/-- Two bytes in which neighbouring bits are equal, sent to a board that was just booted. -/
theorem decodes_unevenDurations :
    ∃ n', n' = (boot 0xAA 0xBB true true true).timedRun
        (waveEvents ((halfBits [0x31, 0xC8]).zip unevenDurations ++ [(true, 8108)])) ∧
      Ringbuffer.contents n'.rx.receiveBuf = [0x31, 0xC8] ∧ n'.rx.sample = true ∧
      n'.rx.currBit = 0 := by
  have hboot : (boot 0xAA 0xBB true true true).timedRun [] = boot 0xAA 0xBB true true true := rfl
  have hready : (boot 0xAA 0xBB true true true).Ready := ⟨rfl, rfl, rfl, rfl⟩
  have hfirst : StartsLow [0x31, 0xC8] := by
    intro b hb
    cases hb
    rfl
  have hds : unevenDurations.length = (halfBits [0x31, 0xC8]).length := by
    rw [length_halfBits, Bits.length_flatMap_msbFirst]
    rfl
  have hshort : ∀ d ∈ unevenDurations, d ≤ halfbitTimeoutTicks := by decide
  have hpair : unevenDurations.IsChain fun d d' => halfbitTimeoutTicks < d + d' := by decide
  exact ⟨_, rfl, decodes_of_run hboot hready hfirst (by decide) hds hshort hpair (by decide)⟩

end Node

end NetworkingCard
