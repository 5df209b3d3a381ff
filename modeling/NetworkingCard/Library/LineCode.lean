import Mathlib.Algebra.Order.Monoid.Canonical.Defs
import Mathlib.Data.List.Chain

/-!
# Manchester line code and its edge decoder

A bit `b` is sent as two half-bits `!b, b`, so that there is an edge to the level `b` in its
middle. The decoder sees nothing but edges and time: after an edge at which it sampled, it opens
a window of length `T`; an edge inside the window is a boundary between two bits and is not
sampled, and the first edge after the window is sampled again.

`follow_encode` is the round trip: whatever the durations of the half-bits, as long as each one
is shorter than `T` and two neighbours together are not, the decoder appends exactly the bits
sent. Time is any ordered monoid, so the rule is independent of a clock's resolution.

`boundary_after_preamble`: bits that alternate have no edge between them, so after such a preamble
only does an edge inside the window come.

`edgesWithin_encode` is for an observer that waits for silence: while a bit string is sent, the
line never keeps its level for longer than two neighbouring half-bits.
-/

namespace LineCode

/-- The two half-bits of a bit: its complement, then the bit itself. -/
def encodeBit (b : Bool) : List Bool := [!b, b]

/-- The half-bits of a bit string. -/
def encode (bs : List Bool) : List Bool := bs.flatMap encodeBit

@[simp] theorem encode_nil : encode [] = [] := rfl

@[simp] theorem encode_cons (b : Bool) (bs : List Bool) :
    encode (b :: bs) = (!b) :: b :: encode bs := rfl

@[simp] theorem encode_append (bs cs : List Bool) : encode (bs ++ cs) = encode bs ++ encode cs :=
  List.flatMap_append

@[simp] theorem length_encode (bs : List Bool) : (encode bs).length = 2 * bs.length := by
  induction bs with
  | nil => rfl
  | cons b bs ih => simp only [encode_cons, List.length_cons, ih]; omega

/-- Of the durations of the half-bits, two belong to the first bit. -/
theorem durations_cons {K : Type} {ts : List K} {b : Bool} {bs : List Bool}
    (h : ts.length = 2 * (b :: bs).length) :
    ∃ u v rest, ts = u :: v :: rest ∧ rest.length = 2 * bs.length := by
  rw [List.length_cons] at h
  obtain _ | ⟨u, _ | ⟨v, rest⟩⟩ := ts
  · rw [List.length_nil] at h
    omega
  · rw [List.length_singleton] at h
    omega
  · rw [List.length_cons, List.length_cons] at h
    exact ⟨u, v, rest, rfl, by omega⟩

/-- What the decoder remembers: the level of the line, the age of the open window if there is
one, and the bits sampled so far. -/
@[ext] structure Decoder (K : Type) where
  level : Bool
  window : Option K
  bits : List Bool

namespace Decoder

variable {K : Type}

/-- The line takes the level `b`. -/
def drive [Zero K] (d : Decoder K) (b : Bool) : Decoder K :=
  if b = d.level then d
  else match d.window with
    | none => ⟨b, some 0, d.bits ++ [b]⟩
    | some _ => ⟨b, none, d.bits⟩

/-- Time `t` passes; the window closes when it is `T` old. -/
def elapse [Add K] [LE K] [DecidableLE K] (T : K) (d : Decoder K) (t : K) : Decoder K :=
  match d.window with
  | none => d
  | some e => if T ≤ e + t then { d with window := none } else { d with window := some (e + t) }

theorem drive_same [Zero K] {d : Decoder K} {b : Bool} (h : b = d.level) : d.drive b = d :=
  if_pos h

theorem drive_sample [Zero K] {d : Decoder K} {b : Bool} (h : b ≠ d.level)
    (hw : d.window = none) : d.drive b = ⟨b, some 0, d.bits ++ [b]⟩ := by
  rw [drive, if_neg h, hw]

theorem drive_boundary [Zero K] {d : Decoder K} {b : Bool} {e : K} (h : b ≠ d.level)
    (hw : d.window = some e) : d.drive b = ⟨b, none, d.bits⟩ := by
  rw [drive, if_neg h, hw]

@[simp] theorem level_drive [Zero K] (d : Decoder K) (b : Bool) : (d.drive b).level = b := by
  unfold drive
  split
  · next h => exact h.symm
  · split <;> rfl

theorem bits_prefix_drive [Zero K] (d : Decoder K) (b : Bool) : d.bits <+: (d.drive b).bits := by
  unfold drive
  split
  · exact List.prefix_rfl
  · split
    · exact List.prefix_append _ _
    · exact List.prefix_rfl

/-- An edge inside the window, which is not sampled. -/
def Boundary (d : Decoder K) (b : Bool) : Prop := b ≠ d.level ∧ d.window ≠ none

theorem not_boundary_same {d : Decoder K} {b : Bool} (h : b = d.level) : ¬d.Boundary b :=
  fun hb => hb.1 h

theorem not_boundary_closed {d : Decoder K} (h : d.window = none) (b : Bool) : ¬d.Boundary b :=
  fun hb => hb.2 h

section Elapse

variable [AddCommMonoid K] [LinearOrder K] {T : K}

@[simp] theorem level_elapse (d : Decoder K) (t : K) : (d.elapse T t).level = d.level := by
  unfold elapse
  split
  · rfl
  · split <;> rfl

@[simp] theorem bits_elapse (d : Decoder K) (t : K) : (d.elapse T t).bits = d.bits := by
  unfold elapse
  split
  · rfl
  · split <;> rfl

theorem elapse_of_closed {d : Decoder K} (h : d.window = none) (t : K) : d.elapse T t = d := by
  rw [elapse, h]

theorem elapse_close {d : Decoder K} {e t : K} (h : d.window = some e) (ht : T ≤ e + t) :
    d.elapse T t = { d with window := none } := by
  rw [elapse, h]
  exact if_pos ht

theorem elapse_open {d : Decoder K} {e t : K} (h : d.window = some e) (ht : e + t < T) :
    d.elapse T t = { d with window := some (e + t) } := by
  rw [elapse, h]
  exact if_neg (not_le.mpr ht)

/-- A window that is still open was open before, and is younger than `T`. -/
theorem open_of_elapse {d : Decoder K} {e t : K} (he : (d.elapse T t).window = some e) :
    ∃ e', d.window = some e' ∧ e = e' + t ∧ e < T := by
  cases hw : d.window with
  | none =>
    rw [elapse_of_closed hw, hw] at he
    cases he
  | some e' =>
    rcases le_or_gt T (e' + t) with hclose | hopen
    · rw [elapse_close hw hclose] at he
      cases he
    · rw [elapse_open hw hopen] at he
      cases he
      exact ⟨e', rfl, rfl, hopen⟩

theorem window_lt_elapse {d : Decoder K} {e t : K} (he : (d.elapse T t).window = some e) :
    e < T := by
  obtain ⟨-, -, -, hlt⟩ := open_of_elapse he
  exact hlt

theorem window_lt_drive {d : Decoder K} (hT : 0 < T) (hage : ∀ e, d.window = some e → e < T)
    (b : Bool) {e : K} (he : (d.drive b).window = some e) : e < T := by
  by_cases hb : b = d.level
  · rw [drive_same hb] at he
    exact hage e he
  · cases hw : d.window with
    | none =>
      rw [drive_sample hb hw] at he
      cases he
      exact hT
    | some e' =>
      rw [drive_boundary hb hw] at he
      cases he

theorem elapse_zero {d : Decoder K} (hage : ∀ e, d.window = some e → e < T) :
    d.elapse T 0 = d := by
  cases hw : d.window with
  | none => exact elapse_of_closed hw 0
  | some e => rw [elapse_open hw (by rw [add_zero]; exact hage e hw), add_zero, ← hw]

/-- A time interval may be cut into pieces. -/
theorem elapse_add [CanonicallyOrderedAdd K] (d : Decoder K) (s t : K) :
    d.elapse T (s + t) = (d.elapse T s).elapse T t := by
  cases h : d.window with
  | none => rw [elapse_of_closed h, elapse_of_closed h, elapse_of_closed h]
  | some e =>
    rcases le_or_gt T (e + s) with hs | hs
    · rw [elapse_close h hs, elapse_close h (by rw [← add_assoc]; exact hs.trans le_self_add),
        elapse_of_closed rfl]
    · rw [elapse_open h hs]
      rcases le_or_gt T (e + s + t) with ht | ht
      · rw [elapse_close h (by rwa [← add_assoc]), elapse_close rfl ht]
      · rw [elapse_open h (by rwa [← add_assoc]), elapse_open rfl ht, add_assoc]

/-! ## One bit -/

/-- In the middle of a bit: sampled at this instant, to the level of the line. -/
def MidBit (d : Decoder K) (b : Bool) (bits : List Bool) : Prop :=
  d = ⟨b, some 0, bits⟩

/-- From idle, a first bit `0` begins without an edge and is sampled at its middle. -/
theorem first_bit {d : Decoder K} (hl : d.level = true) (hw : d.window = none) (t : K) :
    MidBit (((d.drive true).elapse T t).drive false) false (d.bits ++ [false]) := by
  rw [drive_same hl.symm, elapse_of_closed hw, drive_sample (by simp [hl]) hw]
  rfl

/-- Between the middles of two bits the window closes exactly once: by the boundary edge when
the bits are equal, by the time of the two half-bits when they differ. -/
theorem next_bit {d : Decoder K} {a : Bool} {bits : List Bool} (hd : MidBit d a bits) (b : Bool)
    {s t : K} (hs : s < T) (hst : T ≤ s + t) :
    MidBit ((((d.elapse T s).drive (!b)).elapse T t).drive b) b (bits ++ [b]) := by
  have hopen : d.elapse T s = ⟨a, some s, bits⟩ := by
    rw [hd, elapse_open rfl (by rwa [zero_add]), zero_add]
  have hclosed : ((d.elapse T s).drive (!b)).elapse T t = ⟨!b, none, bits⟩ := by
    rw [hopen]
    by_cases hab : (!b) = a
    · rw [drive_same hab, elapse_close rfl hst, hab]
    · rw [drive_boundary hab rfl, elapse_of_closed rfl]
  rw [hclosed, drive_sample (by cases b <;> simp) rfl]
  rfl

/-! ## Whole bit strings -/

/-- The line carries the half-bits of a waveform, each for its own duration. -/
def follow (T : K) (d : Decoder K) (wave : List (Bool × K)) : Decoder K :=
  wave.foldl (fun d s => (d.drive s.1).elapse T s.2) d

@[simp] theorem follow_nil (d : Decoder K) : d.follow T [] = d := rfl

@[simp] theorem follow_cons (d : Decoder K) (s : Bool × K) (wave : List (Bool × K)) :
    d.follow T (s :: wave) = ((d.drive s.1).elapse T s.2).follow T wave := rfl

theorem follow_append (d : Decoder K) (v w : List (Bool × K)) :
    d.follow T (v ++ w) = (d.follow T v).follow T w :=
  List.foldl_append

/-- Sampled bits are never forgotten. -/
theorem bits_prefix_follow (d : Decoder K) (wave : List (Bool × K)) :
    d.bits <+: (d.follow T wave).bits := by
  induction wave generalizing d with
  | nil => exact List.prefix_rfl
  | cons s wave ih =>
    have hstep : d.bits <+: ((d.drive s.1).elapse T s.2).bits := by
      rw [bits_elapse]
      exact bits_prefix_drive d s.1
    exact hstep.trans (ih _)

/-- From the middle of a bit, the durations being those of the rest of that bit and of the
bits that follow. -/
theorem follow_encode_midBit {d : Decoder K} {a : Bool} {bits : List Bool} (hd : MidBit d a bits)
    (bs : List Bool) {t : K} {ts : List K} (hlen : ts.length = 2 * bs.length)
    (hshort : ∀ s ∈ t :: ts, s < T) (hpair : (t :: ts).IsChain fun s u => T ≤ s + u) :
    ∃ b u, u < T ∧
      (d.elapse T t).follow T ((encode bs).zip ts) = ⟨b, some u, bits ++ bs⟩ := by
  induction bs generalizing d a bits t ts with
  | nil =>
    obtain rfl : ts = [] := List.length_eq_zero_iff.mp (by simpa using hlen)
    have ht : t < T := hshort t (by simp)
    refine ⟨a, t, ht, ?_⟩
    rw [hd, elapse_open rfl (by rwa [zero_add]), zero_add]
    simp
  | cons b bs ih =>
    obtain ⟨u, v, ts, rfl, hlen'⟩ := durations_cons hlen
    have htu : T ≤ t + u := hpair.rel
    obtain ⟨c, x, hx, hfollow⟩ := ih (next_bit hd b (hshort t (by simp)) htu) hlen'
      (fun s hs => hshort s (List.mem_cons_of_mem _ (List.mem_cons_of_mem _ hs))) hpair.tail.tail
    refine ⟨c, x, hx, ?_⟩
    rw [encode_cons, List.zip_cons_cons, List.zip_cons_cons, follow_cons, follow_cons, hfollow,
      List.append_assoc]
    rfl

/-- Releasing the line to high for a window's length makes the decoder ready to sample again. -/
theorem release {b : Bool} {u t : K} {bits : List Bool} [CanonicallyOrderedAdd K] (ht : T ≤ t) :
    ((⟨b, some u, bits⟩ : Decoder K).drive true).elapse T t = ⟨true, none, bits⟩ := by
  cases b
  · rw [drive_boundary (by simp) rfl, elapse_of_closed rfl]
  · rw [drive_same rfl, elapse_close rfl (ht.trans le_add_self)]

/-- From an idle line, a bit string that starts with `0` is sampled as it is; at its end the
window is open. -/
theorem follow_encode_open {d : Decoder K} (hl : d.level = true) (hw : d.window = none)
    {bs : List Bool} (hne : bs ≠ []) (hfirst : bs.head? ≠ some true) {ts : List K}
    (hlen : ts.length = 2 * bs.length) (hshort : ∀ s ∈ ts, s < T)
    (hpair : ts.IsChain fun s u => T ≤ s + u) :
    ∃ b u, u < T ∧ d.follow T ((encode bs).zip ts) = ⟨b, some u, d.bits ++ bs⟩ := by
  obtain _ | ⟨b, bs⟩ := bs
  · exact absurd rfl hne
  obtain rfl : b = false := by cases b <;> simp_all
  obtain ⟨u, v, ts, rfl, hlen'⟩ := durations_cons hlen
  obtain ⟨c, x, hx, hfollow⟩ := follow_encode_midBit (first_bit hl hw u) bs
    (t := v) hlen' (fun s hs => hshort s (List.mem_cons_of_mem _ hs))
    hpair.tail
  refine ⟨c, x, hx, ?_⟩
  rw [encode_cons, List.zip_cons_cons, List.zip_cons_cons, follow_cons, follow_cons,
    Bool.not_false, hfollow, List.append_assoc]
  rfl

/-- **Round trip.** From an idle line, a bit string that starts with `0` is decoded to itself,
whatever the durations, and the decoder is ready again after the line's release. -/
theorem follow_encode [CanonicallyOrderedAdd K] {d : Decoder K} (hl : d.level = true)
    (hw : d.window = none) {bs : List Bool} (hfirst : bs.head? ≠ some true) {ts : List K}
    (hlen : ts.length = 2 * bs.length) (hshort : ∀ s ∈ ts, s < T)
    (hpair : ts.IsChain fun s u => T ≤ s + u) {t : K} (ht : T ≤ t) :
    ((d.follow T ((encode bs).zip ts)).drive true).elapse T t = ⟨true, none, d.bits ++ bs⟩ := by
  by_cases hne : bs = []
  · rw [hne, encode_nil, List.zip_nil_left, follow_nil, drive_same hl.symm, elapse_of_closed hw]
    exact Decoder.ext hl hw (List.append_nil _).symm
  · obtain ⟨b, u, -, hfollow⟩ := follow_encode_open hl hw hne hfirst hlen hshort hpair
    rw [hfollow, release ht]

/-- The release adds no bit. -/
theorem bits_release {d : Decoder K} (hl : d.level = true) (hw : d.window = none)
    {bs : List Bool} (hfirst : bs.head? ≠ some true) {ts : List K}
    (hlen : ts.length = 2 * bs.length) (hshort : ∀ s ∈ ts, s < T)
    (hpair : ts.IsChain fun s u => T ≤ s + u) :
    ((d.follow T ((encode bs).zip ts)).drive true).bits = d.bits ++ bs := by
  by_cases hne : bs = []
  · rw [hne, encode_nil, List.zip_nil_left, follow_nil, drive_same hl.symm, List.append_nil]
  · obtain ⟨b, u, -, hfollow⟩ := follow_encode_open hl hw hne hfirst hlen hshort hpair
    rw [hfollow]
    cases b
    · rw [drive_boundary (by simp) rfl]
    · rw [drive_same rfl]

/-! ### Preambles -/

/-- Whenever the waveform drives the line, `P` holds of the decoder and the new level. -/
def Driven (T : K) (P : Decoder K → Bool → Prop) : Decoder K → List (Bool × K) → Prop
  | _, [] => True
  | d, s :: wave => P d s.1 ∧ Driven T P ((d.drive s.1).elapse T s.2) wave

theorem Driven.append {P : Decoder K → Bool → Prop} {d : Decoder K} {v w : List (Bool × K)}
    (hv : Driven T P d v) (hw : Driven T P (d.follow T v) w) : Driven T P d (v ++ w) := by
  induction v generalizing d with
  | nil => exact hw
  | cons s v ih => exact ⟨hv.1, ih hv.2 hw⟩

theorem Driven.mono {P Q : Decoder K → Bool → Prop} (h : ∀ d b, P d b → Q d b) {d : Decoder K}
    {wave : List (Bool × K)} (hP : Driven T P d wave) : Driven T Q d wave := by
  induction wave generalizing d with
  | nil => trivial
  | cons s wave ih => exact ⟨h d s.1 hP.1, ih hP.2⟩

/-- Between two bits that differ there is no edge. -/
theorem not_boundary_alternating {d : Decoder K} {a : Bool} {bits : List Bool}
    (hd : MidBit d a bits) {bs : List Bool} (halt : (a :: bs).IsChain (· ≠ ·)) {t : K} {ts : List K}
    (hlen : ts.length = 2 * bs.length) (hshort : ∀ s ∈ t :: ts, s < T)
    (hpair : (t :: ts).IsChain fun s u => T ≤ s + u) :
    Driven T (fun d b => ¬d.Boundary b) (d.elapse T t) ((encode bs).zip ts) := by
  induction bs generalizing d a bits t ts with
  | nil => trivial
  | cons b bs ih =>
    obtain ⟨u, v, ts, rfl, hlen'⟩ := durations_cons hlen
    have ht : t < T := hshort t List.mem_cons_self
    have htu : T ≤ t + u := hpair.rel
    have hab : (!b) = a := by
      have hne : a ≠ b := halt.rel
      cases a <;> cases b <;> simp_all
    have hopen : d.elapse T t = ⟨a, some t, bits⟩ := by
      rw [hd, elapse_open rfl (by rwa [zero_add]), zero_add]
    have hclosed : ((d.elapse T t).drive (!b)).elapse T u = ⟨a, none, bits⟩ := by
      rw [hopen, drive_same hab, elapse_close rfl htu]
    have hrest := ih (next_bit hd b ht htu) halt.tail hlen'
      (fun s hs => hshort s (List.mem_cons_of_mem _ (List.mem_cons_of_mem _ hs))) hpair.tail.tail
    rw [encode_cons, List.zip_cons_cons, List.zip_cons_cons]
    refine ⟨?_, ?_, hrest⟩
    · rw [hopen]
      exact not_boundary_same hab
    · rw [hclosed]
      exact not_boundary_closed rfl b

/-- From an idle line, bits that alternate from `0` on come without an edge inside the window. -/
theorem not_boundary_preamble {d : Decoder K} (hl : d.level = true) (hw : d.window = none)
    {bs : List Bool} (halt : (true :: bs).IsChain (· ≠ ·)) {ts : List K}
    (hlen : ts.length = 2 * bs.length) (hshort : ∀ s ∈ ts, s < T)
    (hpair : ts.IsChain fun s u => T ≤ s + u) :
    Driven T (fun d b => ¬d.Boundary b) d ((encode bs).zip ts) := by
  obtain _ | ⟨b, bs⟩ := bs
  · trivial
  obtain rfl : b = false := by
    have hne : true ≠ b := halt.rel
    simpa using hne.symm
  obtain ⟨u, v, ts, rfl, hlen'⟩ := durations_cons hlen
  have hmid := first_bit (T := T) hl hw u
  refine ⟨not_boundary_same hl.symm, not_boundary_closed ?_ false, ?_⟩
  · show ((d.drive true).elapse T u).window = none
    rw [drive_same hl.symm, elapse_of_closed hw, hw]
  · exact not_boundary_alternating hmid halt.tail hlen'
      (fun s hs => hshort s (List.mem_cons_of_mem _ hs)) hpair.tail

/-- What holds once `n` bits are sampled holds from then on. -/
theorem driven_of_length {n : ℕ} {d : Decoder K} (hn : n ≤ d.bits.length)
    (wave : List (Bool × K)) :
    Driven T (fun d b => d.Boundary b → n ≤ d.bits.length) d wave := by
  induction wave generalizing d with
  | nil => trivial
  | cons s wave ih =>
    refine ⟨fun _ => hn, ih ?_⟩
    rw [bits_elapse]
    exact hn.trans (bits_prefix_drive d s.1).length_le

/-- From an idle line, edges inside the window come only after an alternating preamble. -/
theorem boundary_after_preamble {d : Decoder K} (hl : d.level = true) (hw : d.window = none)
    (pre : List Bool) {rest : List Bool} (hne : pre ≠ [])
    (halt : (true :: pre).IsChain (· ≠ ·)) {ts : List K}
    (hlen : ts.length = 2 * (pre ++ rest).length) (hshort : ∀ s ∈ ts, s < T)
    (hpair : ts.IsChain fun s u => T ≤ s + u) :
    Driven T (fun d b => d.Boundary b → pre.length ≤ d.bits.length) d
      ((encode (pre ++ rest)).zip ts) := by
  have hsplit := List.take_append_drop (2 * pre.length) ts
  have hpre : (ts.take (2 * pre.length)).length = 2 * pre.length := by
    rw [List.length_append] at hlen
    rw [List.length_take]
    omega
  have hshorts : ∀ s ∈ ts.take (2 * pre.length), s < T :=
    fun s hs => hshort s (List.mem_of_mem_take hs)
  have hpairs : (ts.take (2 * pre.length)).IsChain fun s u => T ≤ s + u := by
    rw [← hsplit] at hpair
    exact hpair.left_of_append
  have hfirst : pre.head? ≠ some true := by
    obtain _ | ⟨b, pre⟩ := pre
    · exact absurd rfl hne
    · intro hb
      exact halt.rel (Option.some.inj hb).symm
  obtain ⟨b, u, -, hfollow⟩ := follow_encode_open hl hw hne hfirst hpre hshorts hpairs
  rw [← hsplit, encode_append, List.zip_append (by rw [length_encode, hpre])]
  apply Driven.append
  · apply Driven.mono (P := fun d b => ¬d.Boundary b) fun _ _ hno hb => absurd hb hno
    exact not_boundary_preamble hl hw halt hpre hshorts hpairs
  · apply driven_of_length
    rw [hfollow, List.length_append]
    exact Nat.le_add_left _ _

end Elapse

end Decoder

/-! ## Silence -/

section Silence

variable {K : Type} [AddCommMonoid K]

/-- The time since the last edge, after a waveform; before it the line had `level` for `age`. -/
def sinceEdge (level : Bool) (age : K) : List (Bool × K) → K
  | [] => age
  | s :: wave => sinceEdge s.1 ((if s.1 = level then age else 0) + s.2) wave

/-- At no moment of the waveform has the line kept its level for longer than `limit`. -/
def EdgesWithin [LE K] (limit : K) (level : Bool) (age : K) : List (Bool × K) → Prop
  | [] => True
  | s :: wave => (if s.1 = level then age else 0) + s.2 ≤ limit ∧
      EdgesWithin limit s.1 ((if s.1 = level then age else 0) + s.2) wave

/-- While a bit string is sent, an edge comes within the time of two neighbouring half-bits; the
line had its level for `t` before, as after the middle of a bit. -/
theorem edgesWithin_encode [LinearOrder K] [CanonicallyOrderedAdd K] {limit : K} (level : Bool)
    {t : K} {bs : List Bool} {ts : List K} (hlen : ts.length = 2 * bs.length)
    (hpair : (t :: ts).IsChain fun s u => s + u ≤ limit) :
    EdgesWithin limit level t ((encode bs).zip ts) := by
  induction bs generalizing level t ts with
  | nil => trivial
  | cons b bs ih =>
    obtain ⟨u, v, ts, rfl, hlen'⟩ := durations_cons hlen
    have htu : t + u ≤ limit := hpair.rel
    have huv : u + v ≤ limit := hpair.tail.rel
    have hfirst : (if (!b) = level then t else 0) + u ≤ limit := by
      split
      · exact htu
      · rw [zero_add]
        exact le_trans le_add_self htu
    have hsecond : (if b = !b then (if (!b) = level then t else 0) + u else 0) + v = v := by
      rw [if_neg (by simp), zero_add]
    refine ⟨hfirst, ?_, ?_⟩
    · rw [hsecond]
      exact le_trans le_add_self huv
    · rw [hsecond]
      exact ih b hlen' hpair.tail.tail

end Silence

end LineCode
