import NetworkingCard.Retransmission

/-!
# Typed lines and transmitted payloads

Over a whole run: the characters that the main routine has read, the lines they form, and the
frames it has loaded into the transmission buffer. `sendsTypedLines_of_run`: the frames are those of
the first lines typed, each cut to what the data buffer holds, unless

* a character other than `'\r'` is read while a finished line waits for an idle line: it is
  added to that line and missing from the next one; or
* a `'\r'` ends a line that begins with NUL: `strcmp` takes that line for the empty one.

The induction is over the run; `LineTyped` relates the data buffer to what has been typed of the
current line.
-/

namespace NetworkingCard

/-- The non-empty lines of a text, given the unfinished line before it; the characters after the
last `'\r'` are not a line yet. -/
def typedLines (line : List Byte) : List Byte → List (List Byte)
  | [] => []
  | c :: text =>
    if c = carriageReturn then
      if line = [] then typedLines [] text else line :: typedLines [] text
    else typedLines (line ++ [c]) text

/-- What the data buffer holds of a line. -/
def cut (line : List Byte) : List Byte := line.take (phMsgSize - 1)

namespace Transmitter

/-- The finished line that waits to be transmitted. -/
def waiting (t : Transmitter) : List (List Byte) := if t.gotMessage then [t.line] else []

/-- The current line has been typed as `line`: the data buffer holds it, or it is empty because
an earlier line waits there. -/
structure LineTyped (t : Transmitter) (line : List Byte) : Prop where
  current : t.gotMessage = false → t.line = cut line
  pending : t.gotMessage = true → line = []

/-- Reading the character keeps lines apart and complete. -/
def ReadsInTime (t : Transmitter) (c : Byte) : Prop :=
  (t.gotMessage = true → c = carriageReturn) ∧
    (c = carriageReturn → t.line ≠ [] → blank t.line = false)

instance (t : Transmitter) (c : Byte) : Decidable (t.ReadsInTime c) :=
  inferInstanceAs (Decidable (_ ∧ _))

/-- What is typed of the current line after one more character. -/
def lineAfter (line : List Byte) (c : Byte) : List Byte :=
  if c = carriageReturn then [] else line ++ [c]

theorem cut_append (line : List Byte) (c : Byte) :
    (cut line ++ [c]).take (phMsgSize - 1) = cut (line ++ [c]) := by
  unfold cut
  rcases Nat.lt_or_ge line.length (phMsgSize - 1) with h | h
  · rw [List.take_of_length_le (Nat.le_of_lt h)]
  · rw [List.take_append_of_le_length (by rw [List.length_take]; omega), List.take_take,
      Nat.min_self, List.take_append_of_le_length h]

theorem cut_eq_nil {line : List Byte} : cut line = [] ↔ line = [] := by
  simp [cut, phMsgSize]

/-- One character: the lines waiting and still to be typed stay the same. -/
theorem LineTyped.readChar {t : Transmitter} {line : List Byte} (h : t.LineTyped line) (hinv : t.Inv)
    {c : Byte} (hc : t.ReadsInTime c) (text : List Byte) :
    (t.readChar c).LineTyped (lineAfter line c) ∧
      (t.readChar c).waiting ++ (typedLines (lineAfter line c) text).map cut =
        t.waiting ++ (typedLines line (c :: text)).map cut := by
  have hlt : t.dataCur < phMsgSize := Nat.lt_of_le_of_lt hinv.dataCur_le (by decide)
  by_cases hret : c = carriageReturn
  · obtain ⟨hgot', hline'⟩ := readChar_return t hlt
    rw [lineAfter, if_pos hret, typedLines, if_pos hret]
    subst hret
    by_cases hgot : t.gotMessage = true
    · -- an empty line, typed while another one waits
      rw [hinv.line hgot] at hgot' hline'
      refine ⟨⟨fun hf => absurd (hgot'.symm.trans hf) (by simp), fun _ => rfl⟩, ?_⟩
      rw [if_pos (h.pending hgot), waiting, waiting, hgot', hgot, hline']
      rfl
    rw [Bool.not_eq_true] at hgot
    have hcur := h.current hgot
    by_cases hempty : line = []
    -- just pressed enter: nothing has been typed, and nothing waits
    · have hnil : t.line = [] := by rw [hcur, hempty]; rfl
      have hblank : blank t.line = true := by rw [hnil]; rfl
      rw [hblank] at hgot' hline'
      refine ⟨⟨fun _ => hline', fun _ => rfl⟩, ?_⟩
      rw [if_pos hempty, waiting, waiting, hgot', hgot]
      rfl
    · have hblank := hc.2 rfl (by rw [hcur, Ne, cut_eq_nil]; exact hempty)
      rw [hblank] at hgot' hline'
      -- the line is finished and waits
      refine ⟨⟨fun hf => absurd (hgot'.symm.trans hf) (by simp), fun _ => rfl⟩, ?_⟩
      rw [if_neg hempty, waiting, waiting, hgot', hgot, hline', List.map_cons, ← hcur]
      rfl
  -- a character of the current line, so no finished one waits
  · have hgot : t.gotMessage = false := Bool.eq_false_of_not_eq_true fun hg => hret (hc.1 hg)
    obtain ⟨hgot', hline'⟩ := readChar_other t hret hinv.dataCur_le
    rw [lineAfter, if_neg hret, typedLines, if_neg hret]
    rw [hgot] at hgot'
    rw [h.current hgot, cut_append] at hline'
    refine ⟨⟨fun _ => hline', fun hf => absurd (hgot'.symm.trans hf) (by simp)⟩, ?_⟩
    rw [waiting, waiting, hgot', hgot]
    rfl

/-- Loading the finished line leaves none waiting. -/
theorem LineTyped.transmitData {t : Transmitter} {line : List Byte} (h : t.LineTyped line)
    (hgot : t.gotMessage = true) :
    t.transmitData.LineTyped line ∧ t.waiting = t.line :: t.transmitData.waiting := by
  have hout : t.transmitData.gotMessage = false ∧ t.transmitData.dataCur = 0 := by
    rw [transmitData_frame]
    exact ⟨rfl, rfl⟩
  have hnil : t.transmitData.line = [] := by
    rw [Transmitter.line, hout.2]
    rfl
  rw [h.pending hgot]
  refine ⟨⟨fun _ => hnil, fun _ => rfl⟩, ?_⟩
  rw [waiting, waiting, if_pos hgot, hout.1]
  rfl

end Transmitter

namespace Node

open Transmitter (frameOf)

/-- The character that an event reads. -/
def typedBy (n : Node) : Event → List Byte
  | .transmitterUpdate c _ => if n.tx.readsChar then [c] else []
  | _ => []

/-- The characters read in a run. -/
def typed (n : Node) (es : List Event) : List Byte := Runs.outputs step typedBy n es

/-- The bytes that an event loads into the transmission buffer, if it starts a new message. -/
def loadedBy (n : Node) : Event → List (List Byte)
  | .transmitterUpdate c random =>
    if n.tx.readsChar && n.starts (.transmitterUpdate c random) then
      [stored (n.transmitterUpdate c random).tx.transBuf]
    else []
  | _ => []

/-- The messages loaded in a run. -/
def loaded (n : Node) (es : List Event) : List (List Byte) := Runs.outputs step loadedBy n es

/-- Reading in time, as a condition on the events of a run. -/
def ReadsInTime (n : Node) : Event → Prop
  | .transmitterUpdate c _ => n.tx.readsChar = true → n.tx.ReadsInTime c
  | _ => True

instance (n : Node) : ∀ e, Decidable (ReadsInTime n e)
  | .transmitterUpdate _ _ => inferInstanceAs (Decidable (_ → _))
  | .receiverUpdate | .tim2 | .tim4 | .exti4 _ | .sysTick => isTrue trivial

/-- The symbols of the frame that carries a payload. -/
def frameSymbols (n : Node) (payload : List Byte) : List Byte :=
  (frameOf n.tx.packetMode n.tx.src n.tx.dest payload).flatMap symbolBytes

/-- What is transmitted for the lines waiting and typed from here on. -/
def expected (n : Node) (line : List Byte) (text : List Byte) : List (List Byte) :=
  (n.tx.waiting ++ (typedLines line text).map cut).map n.frameSymbols

/-- The mode and the addresses never change. -/
theorem config_step {n n' : Node} {e : Event} (hs : n.step e = some n') :
    n'.tx.packetMode = n.tx.packetMode ∧ n'.tx.src = n.tx.src ∧ n'.tx.dest = n.tx.dest := by
  obtain ⟨c, random, rfl, htx⟩ | ⟨rfl, -, htx⟩ | ⟨-, -, htx⟩ := tx_step_cases hs <;> rw [htx]
  · obtain ⟨-, -, heq⟩ | ⟨-, -, heq⟩ | ⟨-, -, -, heq⟩ | ⟨-, -, -, heq⟩ :=
      n.tx.mainRoutineUpdate_cases n.mon.getState c random <;> rw [heq]
    · exact ⟨rfl, rfl, rfl⟩
    · rw [Transmitter.readChar_frame]
      exact ⟨rfl, rfl, rfl⟩
    · rw [Transmitter.transmitData_frame, Transmitter.readChar_frame]
      exact ⟨rfl, rfl, rfl⟩
    · exact ⟨rfl, rfl, rfl⟩
  · obtain ⟨-, heq⟩ | ⟨-, -, heq⟩ | ⟨-, -, -, heq⟩ | ⟨-, -, -, heq⟩ :=
      Transmitter.tim2IRQHandler_cases { n.tx with tim2 := n.tx.tim2.updateEvent }
        n.mon.getState <;> rw [heq] <;> exact ⟨rfl, rfl, rfl⟩
  · exact ⟨rfl, rfl, rfl⟩

theorem frameSymbols_step {n n' : Node} {e : Event} (hs : n.step e = some n') :
    n'.frameSymbols = n.frameSymbols := by
  obtain ⟨hmode, hsrc, hdest⟩ := config_step hs
  funext payload
  rw [frameSymbols, frameSymbols, hmode, hsrc, hdest]

/-- The timer interrupt leaves the lines alone. -/
theorem lines_tim2 (t : Transmitter) (state : MonitorState) (line : List Byte) :
    (t.tim2IRQHandler state).waiting = t.waiting ∧
      (t.LineTyped line → (t.tim2IRQHandler state).LineTyped line) := by
  obtain ⟨-, heq⟩ | ⟨-, -, heq⟩ | ⟨-, -, -, heq⟩ | ⟨-, -, -, heq⟩ :=
    t.tim2IRQHandler_cases state <;> rw [heq] <;>
    exact ⟨rfl, fun h => ⟨h.current, h.pending⟩⟩

/-- A call of the main routine puts out the frame of the line that it finishes, if it can send. -/
theorem loadedBy_main {n : Node} {c : Byte} {random : ℕ} {line : List Byte} (hinv : n.tx.Inv)
    (h : n.tx.LineTyped line) (hc : ReadsInTime n (.transmitterUpdate c random))
    (text : List Byte) :
    ∃ line', (n.transmitterUpdate c random).tx.LineTyped line' ∧
      n.loadedBy (.transmitterUpdate c random) ++ (n.transmitterUpdate c random).expected line' text =
        n.expected line (n.typedBy (.transmitterUpdate c random) ++ text) := by
  have hsymbols : (n.transmitterUpdate c random).frameSymbols = n.frameSymbols :=
    frameSymbols_step (e := .transmitterUpdate c random) rfl
  unfold expected
  rw [loadedBy, typedBy, starts, hsymbols, transmitterUpdate]
  dsimp only
  obtain ⟨hreads, -, heq⟩ | ⟨hreads, -, heq⟩ | ⟨hreads, -, hgot, heq⟩ | ⟨-, hcomplete, -, heq⟩ :=
    n.tx.mainRoutineUpdate_cases n.mon.getState c random <;> rw [heq]
  · rw [hreads]
    exact ⟨line, h, rfl⟩
  · -- a character, and no load
    obtain ⟨h', hlines⟩ := h.readChar hinv (hc hreads) text
    have htx : (n.tx.readChar c).inTransmission = n.tx.inTransmission := by
      rw [Transmitter.readChar_frame]
    rw [hreads, htx]
    refine ⟨_, h', ?_⟩
    rw [hlines]
    cases n.tx.inTransmission <;> rfl
  · -- the character that completes the load of the waiting line
    obtain ⟨h', hlines⟩ := h.readChar hinv (hc hreads) text
    obtain ⟨h'', hwaiting⟩ := h'.transmitData hgot
    have hload := Transmitter.loaded_transmitData (n.tx.readChar c) (hinv.readChar c).dataCur_le
    have htx : n.tx.inTransmission = false := by
      simp only [Transmitter.readsChar, Bool.and_eq_true, Bool.not_eq_true'] at hreads
      exact hreads.1
    have htx' : (n.tx.readChar c).transmitData.inTransmission = true := by
      rw [Transmitter.transmitData_frame]
    have hframe : (frameOf (n.tx.readChar c).packetMode (n.tx.readChar c).src
        (n.tx.readChar c).dest (n.tx.readChar c).line).flatMap symbolBytes =
          n.frameSymbols (n.tx.readChar c).line := by
      rw [frameSymbols, Transmitter.readChar_frame]
    refine ⟨_, h'', ?_⟩
    have hloads : (true && (!false && true)) = true := rfl
    rw [hreads, htx, htx', hload.stored_eq, hframe, if_pos hloads, if_pos rfl,
      List.singleton_append, List.singleton_append, ← hlines, hwaiting, List.cons_append,
      List.map_cons]
  · -- a back-off
    have hreads : n.tx.readsChar = false := by
      rw [Transmitter.readsChar, hcomplete, Bool.and_false]
    rw [hreads]
    exact ⟨line, ⟨h.current, h.pending⟩, rfl⟩

/-- A step puts out the frames of the lines that waited before it and not after. -/
theorem loadedBy_step {n n' : Node} {e : Event} {line : List Byte} (hinv : n.tx.Inv)
    (h : n.tx.LineTyped line) (hc : ReadsInTime n e) (hs : n.step e = some n') (text : List Byte) :
    ∃ line', n'.tx.LineTyped line' ∧
      n.loadedBy e ++ n'.expected line' text = n.expected line (n.typedBy e ++ text) := by
  have hsymbols := frameSymbols_step hs
  obtain ⟨c, random, rfl, -⟩ | ⟨rfl, -, htx⟩ | ⟨hmain, -, htx⟩ := tx_step_cases hs
  · cases hs
    exact loadedBy_main hinv h hc text
  · obtain ⟨hw, hl⟩ := lines_tim2 { n.tx with tim2 := n.tx.tim2.updateEvent } n.mon.getState line
    rw [← htx] at hw hl
    refine ⟨line, hl ⟨h.current, h.pending⟩, ?_⟩
    rw [expected, expected, hsymbols, hw]
    rfl
  · have hnone : n.loadedBy e = [] ∧ n.typedBy e = [] := by
      cases e with
      | transmitterUpdate c random => exact absurd rfl (hmain c random)
      | _ => exact ⟨rfl, rfl⟩
    refine ⟨line, htx ▸ h, ?_⟩
    rw [expected, expected, hsymbols, htx, hnone.1, hnone.2]
    rfl

/-- The messages loaded in a run are the first ones expected. -/
theorem loaded_prefix {n : Node} {line : List Byte} {es : List Event} (hinv : n.tx.Inv)
    (h : n.tx.LineTyped line) (hc : Runs.Along step ReadsInTime n es) :
    n.loaded es <+: n.expected line (n.typed es) := by
  induction es generalizing n line with
  | nil => exact List.nil_prefix
  | cons e es ih =>
    cases hs : n.step e with
    | none =>
      -- an event that is not enabled loads nothing, and the run ends
      have hmain : ∀ c random, e ≠ .transmitterUpdate c random := by
        rintro c random rfl
        cases hs
      have hnone : n.loadedBy e = [] := by
        cases e with
        | transmitterUpdate c random => exact absurd rfl (hmain c random)
        | _ => rfl
      rw [loaded, Runs.outputs, hnone, hs]
      exact List.nil_prefix
    | some n' =>
      obtain ⟨line', h', heq⟩ := loadedBy_step hinv h hc.1 hs (n'.typed es)
      rw [loaded, typed, Runs.outputs_cons hs, Runs.outputs_cons hs]
      rw [show n.expected line (n.typedBy e ++ Runs.outputs step typedBy n' es) = _ from heq.symm]
      exact (List.prefix_append_right_inj _).mpr (ih (inv_step n e n' hinv hs) h' (hc.2 n' hs))

/-- The messages loaded in a run are the frames of the first lines typed, each cut to the size
of the data buffer. -/
def SendsTypedLines (n₀ : Node) (es : List Event) : Prop :=
  n₀.loaded es <+: ((typedLines [] (n₀.typed es)).map cut).map n₀.frameSymbols

instance (n₀ : Node) (es : List Event) : Decidable (SendsTypedLines n₀ es) :=
  inferInstanceAs (Decidable (_ <+: _))

/-- Typed lines become payloads unchanged in every run that reads in time. -/
theorem sendsTypedLines_of_run (src dest : Byte) (packetMode pin line : Bool) (es : List Event)
    (h : Runs.Along step ReadsInTime (boot src dest packetMode pin line) es) :
    SendsTypedLines (boot src dest packetMode pin line) es :=
  loaded_prefix (inv_boot src dest packetMode pin line)
    ⟨fun _ => rfl, by simp [boot, Transmitter.init]⟩ h

/-- The line `a` is finished while the line is busy, and `b` is typed before it is sent. -/
def mergedLines : List Event :=
  [.transmitterUpdate 0x61 0, .exti4 false, .transmitterUpdate carriageReturn 0, .exti4 true,
    .sysTick, .transmitterUpdate 0x62 0]

/-- The message `ab` is loaded, which nobody typed as a line. -/
theorem not_sendsTypedLines_mergedLines :
    ¬SendsTypedLines (boot 0xAA 0xBB true true true) mergedLines := by
  decide +kernel

/-- The same line, finished once more when the line is idle again. -/
def waitingLine : List Event := mergedLines.take 5 ++ [.transmitterUpdate carriageReturn 0]

theorem sendsTypedLines_waitingLine :
    ((boot 0xAA 0xBB true true true).loaded waitingLine).length = 1 ∧
      SendsTypedLines (boot 0xAA 0xBB true true true) waitingLine :=
  ⟨by decide +kernel, sendsTypedLines_of_run 0xAA 0xBB true true true waitingLine
    (by decide +kernel)⟩

end Node

end NetworkingCard
