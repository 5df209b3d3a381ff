import NetworkingCard.Attempts
import NetworkingCard.LoneTransmission

/-!
# Boards between two messages

A transmitter is `Free` when it neither transmits nor waits to retransmit, whatever has been typed
so far; the next call of its main routine starts a transmission if the line is idle and a line of
characters is finished (`Resting.starts_iff`).

Monitors that have followed the same line agree (`Watches.agree`). They learn of a transmission with
its first edge, after the `silence` in which its half-bits are as high as the idle line.
-/

namespace NetworkingCard

open Transmitter (frameOf sentHalfBits)

namespace Transmitter

/-- Between two messages, with the line released: not waiting to retransmit either. -/
structure Free (t : Transmitter) : Prop extends Resting t where
  pin : t.pin = true

/-- The timer has nothing to send; it may still run once after boot. -/
theorem Free.cycle {t : Transmitter} (h : t.Free) (state : MonitorState) : (t.cycle state).Free :=
  ⟨h.toResting.cycle state, h.pin_cycle h.pin state⟩

theorem Booting.free {t : Transmitter} (h : t.Booting 0) (state : MonitorState) :
    (t.cycle state).Free :=
  ⟨h.toResting.cycle state, h.release state⟩

/-- A call of the main routine that starts nothing. -/
theorem Free.stays {t : Transmitter} (h : t.Free) {state : MonitorState} {c : Byte} {random : ℕ}
    (hstay : (t.mainRoutineUpdate state c random).inTransmission = false) :
    (t.mainRoutineUpdate state c random).Free :=
  ⟨(h.toResting.stays hstay).2, (t.pin_mainRoutineUpdate state c random).trans h.pin⟩

end Transmitter

namespace Node

/-- The main loop does not act on the pin. -/
theorem pin_other (n : Node) {e : TimedEvent} (he : physical e = false) :
    (n.timedStep e).tx.pin = n.tx.pin := by
  cases e with
  | transmitterUpdate c random => exact Transmitter.pin_mainRoutineUpdate _ _ _ _
  | receiverUpdate => rfl
  | line level => cases he
  | cycle => cases he

/-! ## Monitors on one line -/

/-- Monitors that have followed the same line are in the same state. -/
theorem Watches.agree {m n : Node} {v : LineView} (hm : m.Watches v) (hn : n.Watches v) :
    m.mon.getState = n.mon.getState := by
  cases hage : v.sinceEdge with
  | none =>
    rw [(hm.fresh hage).1, (hn.fresh hage).1]
  | some k =>
    by_cases hk : k ≤ 16 * transmissionTimeoutUs
    · exact (hm.follows.busy k hage hk).1.trans (hn.follows.busy k hage hk).1.symm
    · have hlt : 16 * transmissionTimeoutUs < k := by omega
      exact (hm.follows.settled k hage hlt).1.trans (hn.follows.settled k hage hlt).1.symm

/-- On an idle line the observer may forget the edges so far. -/
theorem Watches.forget {n : Node} {v : LineView} (h : n.Watches v) (hhigh : v.level = true)
    (hidle : n.mon.getState = .idle) : n.Watches ⟨true, none⟩ := by
  have hstopped : n.mon.stk.enable = false := by
    cases hage : v.sinceEdge with
    | none => exact (h.fresh hage).2
    | some k =>
      by_cases hk : k ≤ 16 * transmissionTimeoutUs
      · have hbusy := (h.follows.busy k hage hk).1
        exact absurd (hbusy.symm.trans hidle) (by simp)
      · exact (h.follows.settled k hage (by omega)).2
  exact ⟨hhigh.symm.trans h.level, Monitor.follows_unknown n.mon true,
    fun _ => ⟨hidle, hstopped⟩⟩

/-- Main-loop events are nothing to the observer. -/
theorem Watches.other {n : Node} {v : LineView} (h : n.Watches v) {e : TimedEvent}
    (he : physical e = false) : (n.timedStep e).Watches v := by
  have hstep := h.timedStep e
  cases e with
  | transmitterUpdate c random => exact hstep
  | receiverUpdate => exact hstep
  | line level => cases he
  | cycle => cases he

/-- The high half-bits at the beginning: the first edge comes with the half-bit after them. -/
def leadingHigh (half : List Bool) : ℕ := (half.takeWhile (· = true)).length

theorem leadingHigh_cons_true (half : List Bool) :
    leadingHigh (true :: half) = leadingHigh half + 1 := by
  simp [leadingHigh]

theorem leadingHigh_cons_false (half : List Bool) : leadingHigh (false :: half) = 0 := rfl

theorem le_leadingHigh {m : ℕ} {rest all : List Bool} (h : List.replicate m true ++ rest = all) :
    m ≤ leadingHigh all := by
  subst h
  induction m with
  | zero => exact Nat.zero_le _
  | succ m ih =>
    rw [List.replicate_succ, List.cons_append, leadingHigh_cons_true]
    omega

/-- The number of cycles in which a transmission makes no edge. -/
def silence (bytes : List Byte) : ℕ := (leadingHigh (sentHalfBits bytes) + 1) * slot

theorem sentHalfBits_eq {bytes : List Byte} (hne : bytes ≠ []) (hroom : 2 * bytes.length < bufSize) :
    ∃ b bs, sentHalfBits bytes = LineCode.encode (b :: bs) := by
  obtain ⟨b, bs, hbits⟩ : ∃ b bs, bytes.flatMap Bits.msbFirst = b :: bs := by
    apply List.exists_cons_of_ne_nil
    intro hnil
    have hlen := congrArg List.length hnil
    rw [Bits.length_flatMap_msbFirst, List.length_nil] at hlen
    have := List.length_pos_iff.mpr hne
    omega
  refine ⟨b, bs, ?_⟩
  rw [sentHalfBits, if_pos hroom, halfBits_eq, hbits]

/-- The two half-bits of the first bit differ. -/
theorem replicate_le_one {bytes : List Byte} (hne : bytes ≠ []) (hroom : 2 * bytes.length < bufSize)
    {m : ℕ} {level : Bool} {rest : List Bool}
    (h : List.replicate m level ++ rest = sentHalfBits bytes) : m ≤ 1 := by
  obtain ⟨b, bs, hcode⟩ := sentHalfBits_eq hne hroom
  rw [hcode, LineCode.encode_cons] at h
  obtain _ | _ | m := m
  · exact Nat.zero_le _
  · exact Nat.le_refl _
  · obtain ⟨hfirst, hrest⟩ := List.cons_eq_cons.mp h
    have hsecond := (List.cons_eq_cons.mp hrest).1
    exact absurd (hfirst.symm.trans hsecond) (by simp)

/-- A packet begins with a low bit, and is silent for two slots. -/
theorem silence_frameOf {src dest : Byte} {line : List Byte} (hlen : line.length ≤ phMsgSize - 1) :
    silence (frameOf true src dest line) = 2 * slot := by
  have hle := Transmitter.length_frameOf_le true src dest hlen
  have hsize : bufSize = 1028 := rfl
  have hhead : ∃ half, halfBits (frameOf true src dest line) = true :: false :: half := by
    rw [halfBits_eq, frameOf, if_pos rfl, List.append_assoc, List.cons_append, List.flatMap_cons]
    exact ⟨_, rfl⟩
  obtain ⟨half, hhalf⟩ := hhead
  rw [silence, sentHalfBits, if_pos (by omega), hhalf, leadingHigh_cons_true,
    leadingHigh_cons_false]

end Node

end NetworkingCard
